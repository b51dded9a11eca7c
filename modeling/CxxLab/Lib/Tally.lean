import Mathlib.Data.Set.Card

/-!
# How many have it

`tally P f` is the number of places where `f` has something with `P`. It is what a reference counter
is compared with while the things at the places change one at a time: a change at one place leaves
it, takes it up by one or takes it down by one.
-/

set_option autoImplicit false

namespace CxxLab.Lib

variable {α β : Type} {P Q : β → Prop} {f : α → β} {a : α} {b : β}

/-- The number of places with `P`. -/
noncomputable def tally (P : β → Prop) (f : α → β) : ℕ∞ := {a | P (f a)}.encard

theorem tally_eq_zero_iff : tally P f = 0 ↔ ∀ a, ¬ P (f a) := by
  rw [tally, Set.encard_eq_zero, Set.eq_empty_iff_forall_notMem]
  exact Iff.rfl

theorem exists_pred {n : ℕ} {t : ℕ∞} (h : (n : ℕ∞) = t + 1) : ∃ m, n = m + 1 ∧ (m : ℕ∞) = t := by
  obtain ⟨m, rfl⟩ : ∃ m, n = m + 1 := by
    refine Nat.exists_eq_succ_of_ne_zero fun hzero => ?_
    rw [hzero, Nat.cast_zero, eq_comm, add_eq_zero] at h
    exact one_ne_zero h.2
  rw [Nat.cast_succ] at h
  exact ⟨m, rfl, ENat.add_left_injective_of_ne_top ENat.one_ne_top h⟩

variable [DecidableEq α]

/-- What a partial map has after a change at one place. -/
theorem update_eq_some_iff {f : α → Option β} {a b : α} {o : Option β} {c : β} :
    Function.update f a o b = some c ↔ b = a ∧ o = some c ∨ b ≠ a ∧ f b = some c := by
  rw [Function.update_apply]
  split
  · rename_i heq
    simp [heq]
  · rename_i hne
    simp [hne]

theorem tally_update_of_iff (h : P (f a) ↔ P b) : tally P (Function.update f a b) = tally P f := by
  have hset : {x | P (Function.update f a b x)} = {x | P (f x)} := by
    ext x
    show P (Function.update f a b x) ↔ P (f x)
    rw [Function.update_apply]
    split
    · rename_i hx
      rw [hx, h]
    · rfl
  rw [tally, hset, tally]

theorem tally_update_add (h : ¬ P (f a)) (hb : P b) :
    tally P (Function.update f a b) = tally P f + 1 := by
  have hset : {x | P (Function.update f a b x)} = insert a {x | P (f x)} := by
    ext x
    rw [Set.mem_insert_iff]
    show P (Function.update f a b x) ↔ x = a ∨ P (f x)
    rw [Function.update_apply]
    split
    · rename_i hx
      exact iff_of_true hb (.inl hx)
    · rename_i hx
      rw [or_iff_right hx]
  have hnot : a ∉ {x | P (f x)} := h
  rw [tally, hset, Set.encard_insert_of_notMem hnot, tally]

theorem tally_update_sub (h : P (f a)) (hb : ¬ P b) :
    tally P (Function.update f a b) + 1 = tally P f := by
  have hself : Function.update (Function.update f a b) a (f a) = f := by
    rw [Function.update_idem, Function.update_eq_self]
  have hadd := @tally_update_add _ _ P (Function.update f a b) a (f a) _
    (by rwa [Function.update_self]) h
  rw [hself] at hadd
  exact hadd.symm

end CxxLab.Lib
