import Mathlib.Order.Basic

/-!
# Bisection of an index range

A search keeps a half-open range `[lo, hi)` of cells, looks at the middle one, and either stops
there or drops one of the two halves. What it is *for* — a lower bound, or a lower bound that may
stop early on a hit — is only in what the look at the middle cell answers, so the loop is proved
once over that answer.

The loop goes on as long as `lo` and `hi` differ, which terminates because the range only
shrinks. Here it is structural in a step budget, and `bisect_spec` says that a budget of
`hi - lo` steps is always enough, so running out is never a result.
-/

set_option autoImplicit false

namespace CxxLab.Lib

/-- What the look at the middle cell of a range says about the target. -/
inductive Probe where
  /-- The target is this cell: stop. -/
  | here
  /-- The target is at this cell or before it. -/
  | left
  /-- The target is behind this cell. -/
  | right
  deriving DecidableEq, Repr

/-- The loop. A probe that answers `none` looked at a cell that does not exist. -/
def bisect (probe : Nat → Option Probe) : (fuel lo hi : Nat) → Option Nat
  | 0, lo, hi => if lo = hi then some lo else none
  | fuel + 1, lo, hi =>
    if lo = hi then some lo
    else
      match probe ((lo + hi) / 2) with
      | some .here => some ((lo + hi) / 2)
      | some .left => bisect probe fuel lo ((lo + hi) / 2)
      | some .right => bisect probe fuel ((lo + hi) / 2 + 1) hi
      | none => none

section Spec

variable {probe : Nat → Option Probe} {n : Nat} {L R : Nat → Prop}

/-- **What a bisection finds.** `L` and `R` are the two sides of the target: a probe that
answers `right` puts its cell and everything before it on the left side, one that answers
`left` puts its cell and everything after it on the right side. Then the loop ends, in at most
`hi - lo` looks, either on a cell that answered `here` or on the border between the sides. -/
theorem bisect_spec (hsome : ∀ c, c < n → probe c ≠ none)
    (hL : ∀ c, c < n → probe c = some .right → ∀ j, j ≤ c → L j)
    (hR : ∀ c, c < n → probe c = some .left → ∀ j, c ≤ j → j < n → R j) :
    ∀ (fuel lo hi : Nat), lo ≤ hi → hi ≤ n → hi - lo ≤ fuel →
      (∀ j, j < lo → L j) → (∀ j, hi ≤ j → j < n → R j) →
      ∃ i, bisect probe fuel lo hi = some i ∧ i ≤ n ∧
        ((i < n ∧ probe i = some .here) ∨ ((∀ j, j < i → L j) ∧ ∀ j, i ≤ j → j < n → R j)) := by
  intro fuel
  induction fuel with
  | zero =>
    intro lo hi hle hn hf hlo hhi
    have heq : lo = hi := by omega
    subst heq
    exact ⟨lo, by simp [bisect], hn, Or.inr ⟨hlo, hhi⟩⟩
  | succ fuel ih =>
    intro lo hi hle hn hf hlo hhi
    by_cases heq : lo = hi
    · subst heq
      exact ⟨lo, by simp [bisect], hn, Or.inr ⟨hlo, hhi⟩⟩
    · have hmid : (lo + hi) / 2 < n := by omega
      simp only [bisect, if_neg heq]
      cases hp : probe ((lo + hi) / 2) with
      | none => exact absurd hp (hsome _ hmid)
      | some a =>
        cases a with
        | here => exact ⟨_, rfl, by omega, Or.inl ⟨hmid, hp⟩⟩
        | left =>
          exact ih lo ((lo + hi) / 2) (by omega) (by omega) (by omega) hlo (hR _ hmid hp)
        | right =>
          exact ih ((lo + hi) / 2 + 1) hi (by omega) hn (by omega)
            (fun j hj => hL _ hmid hp j (by omega)) hhi

variable (probe) in
/-- The search over the whole range `[0, n)`. -/
theorem bisect_range (hsome : ∀ c, c < n → probe c ≠ none)
    (hL : ∀ c, c < n → probe c = some .right → ∀ j, j ≤ c → L j)
    (hR : ∀ c, c < n → probe c = some .left → ∀ j, c ≤ j → j < n → R j) :
    ∃ i, bisect probe n 0 n = some i ∧ i ≤ n ∧
      ((i < n ∧ probe i = some .here) ∨ ((∀ j, j < i → L j) ∧ ∀ j, i ≤ j → j < n → R j)) :=
  bisect_spec hsome hL hR n 0 n (Nat.zero_le _) (Nat.le_refl _) (Nat.le_refl _)
    (fun _ h => absurd h (Nat.not_lt_zero _)) (fun _ h h' => absurd h' (Nat.not_lt.mpr h))

end Spec

/-- Whatever the probes answer, a search of cells that all exist ends inside its range. This
is the only thing known of a search over keys that are not in order. -/
theorem bisect_isSome {probe : Nat → Option Probe} {n : Nat}
    (hsome : ∀ c, c < n → probe c ≠ none) : ∃ i, bisect probe n 0 n = some i ∧ i ≤ n := by
  obtain ⟨i, hi, hn, -⟩ := bisect_range probe (L := fun _ => True) (R := fun _ => True) hsome
    (fun _ _ _ _ _ => trivial) (fun _ _ _ _ _ _ => trivial)
  exact ⟨i, hi, hn⟩

/-- A larger budget does not change what is found. -/
theorem bisect_mono {probe : Nat → Option Probe} {i : Nat} : ∀ {fuel fuel' lo hi : Nat},
    bisect probe fuel lo hi = some i → fuel ≤ fuel' → bisect probe fuel' lo hi = some i := by
  intro fuel
  induction fuel with
  | zero =>
    intro fuel' lo hi h _
    rw [bisect, Option.ite_none_right_eq_some] at h
    obtain ⟨heq, hi⟩ := h
    cases fuel' with
    | zero => rw [bisect, if_pos heq, hi]
    | succ fuel' => rw [bisect, if_pos heq, hi]
  | succ fuel ih =>
    intro fuel' lo hi h hle
    obtain ⟨fuel', rfl⟩ := Nat.exists_eq_add_of_lt hle
    rw [bisect] at h ⊢
    split at h
    · rename_i heq
      rw [if_pos heq, h]
    · rename_i hne
      rw [if_neg hne]
      cases hp : probe ((lo + hi) / 2) with
      | none =>
        rw [hp] at h
        cases h
      | some a =>
        rw [hp] at h
        cases a with
        | here => exact h
        | left => exact ih h (Nat.le_add_right _ _)
        | right => exact ih h (Nat.le_add_right _ _)

theorem le_bisect {probe : Nat → Option Probe} : ∀ {fuel lo hi i : Nat}, lo ≤ hi →
    bisect probe fuel lo hi = some i → lo ≤ i := by
  intro fuel
  induction fuel with
  | zero =>
    intro lo hi i _ h
    rw [bisect] at h
    split at h <;> cases h
    exact Nat.le_refl _
  | succ fuel ih =>
    intro lo hi i hle h
    rw [bisect] at h
    split at h
    · cases h
      exact Nat.le_refl _
    · split at h
      · cases h
        omega
      · exact ih (by omega) h
      · exact Nat.le_of_succ_le (Nat.le_trans (by omega) (ih (by omega) h))
      · cases h

/-- **A hit on the second cell hides the first one**: the middle of a range of two cells or more
is not the first cell, and the range is not narrowed below a hit. -/
theorem lt_bisect {probe : Nat → Option Probe} : ∀ {fuel lo hi i : Nat}, lo + 2 ≤ hi →
    probe (lo + 1) = some .here → bisect probe fuel lo hi = some i → lo < i := by
  intro fuel
  induction fuel with
  | zero =>
    intro lo hi i hlen _ h
    rw [bisect, if_neg (by omega)] at h
    cases h
  | succ fuel ih =>
    intro lo hi i hlen hhere h
    rw [bisect, if_neg (by omega)] at h
    split at h
    · cases h
      omega
    · rename_i hleft
      have hne : (lo + hi) / 2 ≠ lo + 1 := by
        intro heq
        rw [heq, hhere] at hleft
        cases hleft
      exact ih (by omega) hhere h
    · have := le_bisect (by omega) h
      omega
    · cases h

end CxxLab.Lib
