import CxxLab.Lib.Exec

/-!
# Pre- and postconditions of code that can fail

`Triple P x Q E`: from a state with `P` the computation `x` ends with a value and `Q`, or stops
with an error and `E`. The error has a postcondition of its own because the state that an early
exit leaves is as much part of a program as the one it is meant to reach.

There is one rule for each way a program is put together. A program is taken apart by `bind`, with
what is between two calls as the intermediate assertion; a loop over a list is `forM` with an
invariant.
-/

set_option autoImplicit false

namespace CxxLab.Lib

open Exec

variable {ε σ α β : Type}

def Triple (P : σ → Prop) (x : Exec ε σ α) (Q : α → σ → Prop) (E : ε → σ → Prop) : Prop :=
  ∀ s, P s → match exec x s with
    | (.ok a, s') => Q a s'
    | (.error e, s') => E e s'

namespace Triple

variable {P S : σ → Prop} {x : Exec ε σ α} {Q Q' : α → σ → Prop} {R : β → σ → Prop}
  {E E' : ε → σ → Prop}

protected theorem pure {a : α} (h : ∀ s, P s → Q a s) : Triple P (pure a) Q E := h

protected theorem throw {e : ε} (h : ∀ s, P s → E e s) : Triple P (throw e) Q E := h

protected theorem modify {f : σ → σ} {Q : Unit → σ → Prop} (h : ∀ s, P s → Q () (f s)) :
    Triple P (modify f) Q E := h

protected theorem bind {f : α → Exec ε σ β} (hx : Triple P x Q E)
    (hf : ∀ a, Triple (Q a) (f a) R E) : Triple P (x >>= f) R E := by
  intro s hs
  have hfirst := hx s hs
  rw [exec_bind]
  rcases hrun : exec x s with ⟨r, s'⟩
  rw [hrun] at hfirst
  cases r with
  | ok a => exact hf a s' hfirst
  | error e => exact hfirst

theorem get_bind {f : σ → Exec ε σ β} (h : ∀ s, P s → Triple (· = s) (f s) R E) :
    Triple P (get >>= f) R E := by
  intro s hs
  rw [exec_bind_ok (exec_get s)]
  exact h s hs s rfl

theorem conseq (h : Triple S x Q' E') (hP : ∀ s, P s → S s) (hQ : ∀ a s, Q' a s → Q a s)
    (hE : ∀ e s, E' e s → E e s) : Triple P x Q E := by
  intro s hs
  have := h s (hP s hs)
  rcases hrun : exec x s with ⟨r, s'⟩
  rw [hrun] at this
  cases r with
  | ok a => exact hQ a s' this
  | error e => exact hE e s' this

theorem pre (h : Triple S x Q E) (hP : ∀ s, P s → S s) : Triple P x Q E :=
  h.conseq hP (fun _ _ => id) fun _ _ => id

theorem post (h : Triple P x Q' E) (hQ : ∀ a s, Q' a s → Q a s) : Triple P x Q E :=
  h.conseq (fun _ => id) hQ fun _ _ => id

theorem of_forall (h : ∀ s, P s → Triple (· = s) x Q E) : Triple P x Q E :=
  fun s hs => h s hs s rfl

protected theorem ite {c : Prop} [Decidable c] {x y : Exec ε σ α} (hx : c → Triple P x Q E)
    (hy : ¬ c → Triple P y Q E) : Triple P (if c then x else y) Q E := by
  split
  · rename_i h
    exact hx h
  · rename_i h
    exact hy h

/-- **The rule for loops**: what every turn keeps holds at the end. -/
protected theorem forM {f : β → Exec ε σ PUnit} :
    ∀ {bs : List β}, (∀ b ∈ bs, Triple P (f b) (fun _ => P) E) →
      Triple P (bs.forM f) (fun _ => P) E := by
  intro bs
  induction bs with
  | nil => intro _; exact .pure fun _ => id
  | cons b bs ih =>
    intro h
    show Triple P (f b >>= fun _ => bs.forM f) (fun _ => P) E
    exact (h b List.mem_cons_self).bind fun _ => ih fun b hb => h b (List.mem_cons_of_mem _ hb)

end Triple

end CxxLab.Lib
