import Mathlib.Algebra.BigOperators.Group.Finset.Piecewise
import Mathlib.Algebra.Ring.Nat
import Mathlib.Data.List.Perm.Basic
import CxxLab.Lib.Run

/-!
# Threads at a condition variable

A thread that needs a condition takes the lock, looks, and goes on if the condition holds. If not, it
sleeps until somebody wakes it, and looks again. So it is in one of three places: about to look
(`ready`), asleep (`waiting`), or somewhere else in its program (`out`).

A notification makes sleepers ready and does nothing to the others. That is little, but it can be done
many times, so a proof that a system of such threads comes to rest has to pay for it: `cost` gives
every place a price, being ready one more than being asleep, and waking everybody costs no more than
there are threads. If each step is paid for, a run is no longer than what there is to pay with
(`length_run_le`).
-/

set_option autoImplicit false

namespace CxxLab.Lib

section Set

variable {α : Type} {l : List α} {i : Nat} {a b c : α}

theorem perm_set (h : l[i]? = some a) (b : α) : (a :: l.set i b).Perm (b :: l) := by
  obtain ⟨hi, rfl⟩ := List.getElem?_eq_some_iff.mp h
  calc (l[i] :: l.set i b).Perm (l[i] :: b :: l.eraseIdx i) := (List.set_perm_cons_eraseIdx hi b).cons _
    _ |>.Perm (b :: l[i] :: l.eraseIdx i) := List.Perm.swap ..
    _ |>.Perm (b :: l) := (List.getElem_cons_eraseIdx_perm hi).cons b

theorem mem_set_of_ne (h : l[i]? = some a) (hc : c ∈ l) (hne : c ≠ a) : c ∈ l.set i b :=
  (List.mem_cons.mp ((perm_set h b).mem_iff.mpr (List.mem_cons_of_mem b hc))).resolve_left hne

theorem mem_set_self_of_getElem? (h : l[i]? = some a) : b ∈ l.set i b :=
  List.mem_set (List.getElem?_eq_some_iff.mp h).1 b

/-- What is at a place after a change at one place. -/
theorem getElem?_set_cases {j : Nat} (h : (l.set i a)[j]? = some c) : j = i ∧ c = a ∨ j ≠ i ∧ l[j]? = some c := by
  by_cases hji : j = i
  · subst hji
    obtain ⟨hlt, hc⟩ := List.getElem?_eq_some_iff.mp h
    rw [List.getElem_set_self] at hc
    exact Or.inl ⟨rfl, hc.symm⟩
  · rw [List.getElem?_set_ne (Ne.symm hji)] at h
    exact Or.inr ⟨hji, h⟩

theorem countP_set (P : α → Bool) (h : l[i]? = some a) (b : α) :
    (if P a then 1 else 0) + (l.set i b).countP P = (if P b then 1 else 0) + l.countP P := by
  have hcount := (perm_set h b).countP_eq P
  rw [List.countP_cons, List.countP_cons] at hcount
  omega

/-- Where there is at most one, two are the same. -/
theorem eq_of_countP_le_one {P : α → Bool} : ∀ {l : List α}, l.countP P ≤ 1 → a ∈ l → b ∈ l →
    P a = true → P b = true → a = b := by
  intro l
  induction l with
  | nil => intro _ ha; cases ha
  | cons c l ih =>
    intro hcount ha hb hPa hPb
    have hnone : P c = true → ∀ x ∈ l, P x = true → False := by
      intro hc x hx hPx
      rw [List.countP_cons_of_pos hc] at hcount
      have := List.countP_pos_iff.mpr ⟨x, hx, hPx⟩
      omega
    rcases List.mem_cons.mp ha with rfl | ha' <;> rcases List.mem_cons.mp hb with rfl | hb'
    · rfl
    · exact (hnone hPa b hb' hPb).elim
    · exact (hnone hPb a ha' hPa).elim
    · exact ih (Nat.le_trans (List.sublist_cons_self c l).countP_le hcount) ha' hb' hPa hPb

end Set

/-- A thread that looks with an `a` in hand, or is at the point `w` of its program. -/
inductive Place (α ω : Type) where
  | ready (a : α)
  | waiting (a : α)
  | out (w : ω)
  deriving DecidableEq

namespace Place

variable {α ω β : Type} {p q : Place α ω} {ps : List (Place α ω)} {i : Nat}

def isWaiting : Place α ω → Bool
  | waiting _ => true
  | _ => false

def wake : Place α ω → Place α ω
  | waiting a => ready a
  | p => p

/-- `notify_all`. -/
def wakeAll (ps : List (Place α ω)) : List (Place α ω) := ps.map wake

@[simp] theorem length_wakeAll : (wakeAll ps).length = ps.length := List.length_map _

theorem waiting_not_mem_wakeAll (a : α) : waiting a ∉ wakeAll ps := by
  intro h
  obtain ⟨p, -, hp⟩ := List.mem_map.mp h
  cases p <;> cases hp

@[simp] theorem out_mem_wakeAll {w : ω} : out w ∈ wakeAll ps ↔ out w ∈ ps := by
  constructor
  · intro h
    obtain ⟨p, hp, heq⟩ := List.mem_map.mp h
    cases p with
    | ready a => cases heq
    | waiting a => cases heq
    | out w' =>
      cases heq
      exact hp
  · exact fun h => List.mem_map.mpr ⟨out w, h, rfl⟩

theorem getElem?_wakeAll (i : Nat) : (wakeAll ps)[i]? = ps[i]?.map wake := List.getElem?_map

/-! ## What the threads have with them -/

/-- What the threads that are out have. -/
def held (f : ω → Option β) (ps : List (Place α ω)) : List β :=
  ps.filterMap fun
    | out w => f w
    | _ => none

theorem held_wakeAll (f : ω → Option β) : held f (wakeAll ps) = held f ps := by
  rw [held, wakeAll, List.filterMap_map]
  refine List.filterMap_congr fun p _ => ?_
  cases p <;> rfl

theorem held_set (f : ω → Option β) (h : ps[i]? = some p) (q : Place α ω) :
    (held f [p] ++ held f (ps.set i q)).Perm (held f [q] ++ held f ps) := by
  have hperm := (perm_set h q).filterMap fun
    | out w => f w
    | _ => none
  rwa [← List.singleton_append, List.filterMap_append, ← List.singleton_append (l := ps),
    List.filterMap_append] at hperm

/-! ## What it costs to come to rest -/

/-- The price of a place, with prices for sleeping and for the points of the program. -/
def cost (sleep : Nat) (f : ω → Nat) : Place α ω → Nat
  | ready _ => sleep + 1
  | waiting _ => sleep
  | out w => f w

def costs (sleep : Nat) (f : ω → Nat) (ps : List (Place α ω)) : Nat := (ps.map (cost sleep f)).sum

variable (sleep : Nat) (f : ω → Nat)

theorem costs_set (h : ps[i]? = some p) (q : Place α ω) :
    cost sleep f p + costs sleep f (ps.set i q) = cost sleep f q + costs sleep f ps := by
  have hperm := ((perm_set h q).map (cost sleep f)).sum_nat
  simpa [costs] using hperm

theorem costs_wakeAll_le (ps : List (Place α ω)) :
    costs sleep f (wakeAll ps) ≤ costs sleep f ps + ps.length := by
  induction ps with
  | nil => exact Nat.le_refl _
  | cons p ps ih =>
    have hp : cost sleep f p.wake ≤ cost sleep f p + 1 := by
      cases p with
      | ready a => exact Nat.le_succ _
      | waiting a => exact Nat.le_refl _
      | out w => exact Nat.le_succ _
    simp only [costs, wakeAll, List.map_cons, List.sum_cons, List.length_cons] at ih ⊢
    omega

end Place

/-! ## Paying for a run -/

/-- What a sum is after a change of one of its terms. -/
theorem add_sum_update {ι : Type} [DecidableEq ι] {s : Finset ι} {i : ι} (hi : i ∈ s) (f : ι → Nat) (a : Nat) :
    f i + ∑ j ∈ s, Function.update f i a j = a + ∑ j ∈ s, f j := by
  rw [Finset.sum_update_of_mem hi, Finset.sdiff_singleton_eq_erase, ← Finset.add_sum_erase s f hi]
  exact Nat.add_left_comm ..

section Run

variable {σ β : Type} {step : σ → β → Option σ} {due : σ → Nat} {fresh g : β → Bool} {k : Nat}

/-- **A run is no longer than what there is to pay with.** Each step lowers `due`, or, if it is one of
those that meet `g`, raises it by less than `k`. Steps that are `fresh` bring something new to do, so
there are none. -/
theorem length_run_le_of_inv {I : σ → Prop} (hinv : ∀ s b s', I s → step s b = some s' → I s')
    (hdue : ∀ s b s', I s → step s b = some s' → fresh b = false →
      due s' + 1 ≤ due s + if g b then k else 0) :
    ∀ {bs : List β} {s s' : σ}, I s → (∀ b ∈ bs, fresh b = false) → runSteps step s bs = some s' →
      due s' + bs.length ≤ due s + k * bs.countP g := by
  intro bs
  induction bs with
  | nil =>
    intro s s' _ _ hrun
    cases hrun
    exact Nat.le_refl _
  | cons b bs ih =>
    intro s s' hs hfresh hrun
    obtain ⟨s₁, hone, hrest⟩ := Option.bind_eq_some_iff.mp hrun
    have hfirst := hdue s b s₁ hs hone (hfresh b List.mem_cons_self)
    have hlater := ih (hinv s b s₁ hs hone) (fun c hc => hfresh c (List.mem_cons_of_mem _ hc)) hrest
    rw [List.length_cons, List.countP_cons]
    by_cases hgift : g b = true
    · rw [if_pos hgift] at hfirst ⊢
      rw [Nat.mul_add, Nat.mul_one]
      omega
    · rw [if_neg hgift] at hfirst ⊢
      rw [Nat.add_zero (bs.countP g)]
      omega

theorem length_run_le (hdue : ∀ s b s', step s b = some s' → fresh b = false →
      due s' + 1 ≤ due s + if g b then k else 0) {bs : List β} {s s' : σ}
    (hfresh : ∀ b ∈ bs, fresh b = false) (hrun : runSteps step s bs = some s') :
    due s' + bs.length ≤ due s + k * bs.countP g :=
  length_run_le_of_inv (I := fun _ => True) (fun _ _ _ _ _ => trivial) (fun s b s' _ => hdue s b s')
    trivial hfresh hrun

end Run

end CxxLab.Lib
