import CxxLab.Lib.Hoare

/-!
# Two programs that end alike

`Sim P x y Q E` compares two computations over states of different kinds: from states with `P` they end
alike, both with a value and then `Q` holds of the values and the states, or both with the same error
and then `E` holds. Where `x` is a program over a representation and `y` the program it is meant to be,
this says that nobody can tell them apart.

As for `Triple`, there is one rule for each way a program is put together, and a comparison of two
programs of the same shape is a comparison of their calls.
-/

set_option autoImplicit false

namespace CxxLab.Lib

open Exec

variable {ε σ τ α β γ δ : Type}

def Sim (P : σ → τ → Prop) (x : Exec ε σ α) (y : Exec ε τ β) (Q : α → β → σ → τ → Prop)
    (E : ε → σ → τ → Prop) : Prop :=
  ∀ s t, P s t → match exec x s, exec y t with
    | (.ok a, s'), (.ok b, t') => Q a b s' t'
    | (.error e, s'), (.error e', t') => e = e' ∧ E e s' t'
    | _, _ => False

namespace Sim

variable {P P' : σ → τ → Prop} {x : Exec ε σ α} {y : Exec ε τ β} {Q Q' : α → β → σ → τ → Prop}
  {R : γ → δ → σ → τ → Prop} {E E' : ε → σ → τ → Prop}

protected theorem pure {a : α} {b : β} (h : ∀ s t, P s t → Q a b s t) :
    Sim P (pure a) (pure b) Q E := h

protected theorem throw {e : ε} (h : ∀ s t, P s t → E e s t) : Sim P (throw e) (throw e) Q E :=
  fun s t hst => ⟨rfl, h s t hst⟩

protected theorem modify {f : σ → σ} {g : τ → τ} {Q : Unit → Unit → σ → τ → Prop}
    (h : ∀ s t, P s t → Q () () (f s) (g t)) : Sim P (modify f) (modify g) Q E := h

protected theorem bind {f : α → Exec ε σ γ} {g : β → Exec ε τ δ} (hx : Sim P x y Q E)
    (hf : ∀ a b, Sim (Q a b) (f a) (g b) R E) : Sim P (x >>= f) (y >>= g) R E := by
  intro s t hst
  have hfirst := hx s t hst
  rw [exec_bind, exec_bind]
  rcases hs : exec x s with ⟨r, s'⟩
  rcases ht : exec y t with ⟨r', t'⟩
  rw [hs, ht] at hfirst
  cases r with
  | ok a =>
    cases r' with
    | ok b => exact hf a b s' t' hfirst
    | error e => exact hfirst.elim
  | error e =>
    cases r' with
    | ok b => exact hfirst.elim
    | error e' => exact hfirst

theorem conseq (h : Sim P' x y Q' E') (hP : ∀ s t, P s t → P' s t)
    (hQ : ∀ a b s t, Q' a b s t → Q a b s t) (hE : ∀ e s t, E' e s t → E e s t) :
    Sim P x y Q E := by
  intro s t hst
  have hend := h s t (hP s t hst)
  rcases hs : exec x s with ⟨r, s'⟩
  rcases ht : exec y t with ⟨r', t'⟩
  rw [hs, ht] at hend
  cases r with
  | ok a =>
    cases r' with
    | ok b => exact hQ a b s' t' hend
    | error e => exact hend
  | error e =>
    cases r' with
    | ok b => exact hend
    | error e' => exact ⟨hend.1, hE e s' t' hend.2⟩

theorem pre (h : Sim P' x y Q E) (hP : ∀ s t, P s t → P' s t) : Sim P x y Q E :=
  h.conseq hP (fun _ _ _ _ => id) fun _ _ _ => id

theorem post (h : Sim P x y Q' E) (hQ : ∀ a b s t, Q' a b s t → Q a b s t) : Sim P x y Q E :=
  h.conseq (fun _ _ => id) hQ fun _ _ _ => id

protected theorem map {f : α → γ} {g : β → δ} (hx : Sim P x y Q E)
    (hf : ∀ a b s t, Q a b s t → R (f a) (g b) s t) : Sim P (f <$> x) (g <$> y) R E := by
  rw [map_eq_pure_bind, map_eq_pure_bind]
  exact hx.bind fun a b => .pure (hf a b)

theorem get_bind {f : σ → Exec ε σ α} {g : τ → Exec ε τ β}
    (h : ∀ s t, P s t → Sim (fun s' t' => s' = s ∧ t' = t) (f s) (g t) Q E) :
    Sim P (get >>= f) (get >>= g) Q E := by
  intro s t hst
  rw [exec_bind_ok (exec_get s), exec_bind_ok (exec_get t)]
  exact h s t hst s t ⟨rfl, rfl⟩

/-- From two states it is enough to start with what holds of them. -/
theorem of_eq {s : σ} {t : τ} (hst : P s t) (h : Sim P x y Q E) :
    Sim (fun s' t' => s' = s ∧ t' = t) x y Q E :=
  h.pre fun _ _ heq => by
    obtain ⟨rfl, rfl⟩ := heq
    exact hst

/-- The first calls end alike, and what is said of their values alone is at hand for the rest. -/
theorem bind_and {φ : α → β → Prop} {f : α → Exec ε σ γ} {g : β → Exec ε τ δ}
    (hx : Sim P x y (fun a b s t => φ a b ∧ Q a b s t) E)
    (hf : ∀ a b, φ a b → Sim (Q a b) (f a) (g b) R E) : Sim P (x >>= f) (y >>= g) R E :=
  hx.bind fun a b s t hst => hf a b hst.1 s t hst.2

theorem throw_bind {e : ε} {f : α → Exec ε σ γ} {g : β → Exec ε τ δ} (h : ∀ s t, P s t → E e s t) :
    Sim P (throw e >>= f) (throw e >>= g) R E :=
  fun s t hst => ⟨rfl, h s t hst⟩

theorem of_fact {φ : Prop} (hφ : ∀ s t, P s t → φ) (h : φ → Sim P x y Q E) : Sim P x y Q E :=
  fun s t hst => h (hφ s t hst) s t hst

protected theorem ite {c d : Prop} [Decidable c] [Decidable d] {x' : Exec ε σ α} {y' : Exec ε τ β}
    (hcd : c ↔ d) (hpos : c → Sim P x y Q E) (hneg : ¬ c → Sim P x' y' Q E) :
    Sim P (if c then x else x') (if d then y else y') Q E := by
  by_cases hc : c
  · rw [if_pos hc, if_pos (hcd.mp hc)]
    exact hpos hc
  · rw [if_neg hc, if_neg fun hd => hc (hcd.mpr hd)]
    exact hneg hc

/-- A handler takes over from where the error left off. -/
protected theorem tryCatch {f : ε → Exec ε σ α} {g : ε → Exec ε τ β} (hx : Sim P x y Q E)
    (hf : ∀ e, Sim (E e) (f e) (g e) Q E) : Sim P (tryCatch x f) (tryCatch y g) Q E := by
  intro s t hst
  have hfirst := hx s t hst
  rw [exec_tryCatch, exec_tryCatch]
  rcases hs : exec x s with ⟨r, s'⟩
  rcases ht : exec y t with ⟨r', t'⟩
  rw [hs, ht] at hfirst
  cases r with
  | ok a =>
    cases r' with
    | ok b => exact hfirst
    | error e => exact hfirst.elim
  | error e =>
    cases r' with
    | ok b => exact hfirst.elim
    | error e' =>
      obtain ⟨rfl, he⟩ := hfirst
      exact hf e s' t' he

end Sim

end CxxLab.Lib
