import Mathlib.Data.Option.Basic

/-!
# Walks along pointers

A loop that follows a pointer from one object to the next until there is none. `next` gives the
object behind one, or that the walk ends there, or nothing where the pointer is bad. The loop has
nothing that bounds it, so it takes fuel, and what is to be shown is that some is enough.

`walk_eq` is the rule: where a rank goes down along the pointers, the rank of the start is enough,
and more makes no difference. `forWalk` is such a loop with a body, which is a fold over the walk.
-/

set_option autoImplicit false

namespace CxxLab.Lib

variable {α σ : Type}

/-- The objects from one on. -/
def walk (next : α → Option (Option α)) : Nat → Option α → Option (List α)
  | _, none => some []
  | 0, some _ => none
  | fuel + 1, some a => do
    let rest ← walk next fuel (← next a)
    return a :: rest

/-- A loop over the objects from one on, with a body. -/
def forWalk (next : α → Option (Option α)) (body : σ → α → σ) : Nat → σ → Option α → Option σ
  | _, s, none => some s
  | 0, _, some _ => none
  | fuel + 1, s, some a => do
    forWalk next body fuel (body s a) (← next a)

/-- **The rule for walks**: with a rank that goes down from object to object, fuel above the rank of
the start is enough. -/
theorem walk_eq {next : α → Option (Option α)} {D : α → Prop} {rank : α → Nat}
    (hnext : ∀ a, D a → ∃ o, next a = some o ∧ ∀ b ∈ o, D b ∧ rank b < rank a) :
    ∀ {n : Nat} {a : α}, D a → rank a < n →
      ∃ rest, ∀ fuel, n ≤ fuel → walk next fuel (some a) = some (a :: rest) := by
  intro n
  induction n with
  | zero => intro a _ hrank; cases hrank
  | succ n ih =>
    intro a ha hrank
    obtain ⟨o, ho, hlater⟩ := hnext a ha
    cases o with
    | none =>
      refine ⟨[], fun fuel hfuel => ?_⟩
      obtain ⟨fuel, rfl⟩ := Nat.exists_eq_succ_of_ne_zero (by omega : fuel ≠ 0)
      simp [walk, ho]
    | some b =>
      obtain ⟨hb, hlt⟩ := hlater b rfl
      obtain ⟨rest, hrest⟩ := ih hb (by omega)
      refine ⟨b :: rest, fun fuel hfuel => ?_⟩
      obtain ⟨fuel, rfl⟩ := Nat.exists_eq_succ_of_ne_zero (by omega : fuel ≠ 0)
      simp [walk, ho, hrest fuel (by omega)]

/-- A loop with a body folds it over the walk. -/
theorem forWalk_eq (next : α → Option (Option α)) (body : σ → α → σ) : ∀ (fuel : Nat) (s : σ)
    (o : Option α), forWalk next body fuel s o = (walk next fuel o).map (List.foldl body s) := by
  intro fuel
  induction fuel with
  | zero => intro s o; cases o <;> rfl
  | succ fuel ih =>
    intro s o
    cases o with
    | none => rfl
    | some a =>
      simp only [forWalk, walk]
      cases next a with
      | none => rfl
      | some o =>
        simp only [Option.bind_eq_bind, Option.bind_some, ih, Option.pure_def]
        cases walk next fuel o <;> rfl

end CxxLab.Lib
