import Mathlib.Data.List.Basic

/-!
# Blocks of memory

A block of memory is a list of cells, each of which has a value in it or, since it was allocated, none.
`store` writes some values from an index on, and has no result where that is not within the block.
What a program says of a block it fills from the front is `store_fresh`; what it says of the cells a
store does not reach is `getElem?_store`.
-/

set_option autoImplicit false

namespace CxxLab.Lib

abbrev Block (α : Type) := List (Option α)

namespace Block

variable {α : Type} {block block' : Block α} {i : Nat} {xs : List α}

/-- A new block. -/
def new (n : Nat) : Block α := List.replicate n none

@[simp] theorem length_new (n : Nat) : (new n : Block α).length = n := List.length_replicate

/-- Write `xs` from the index `i` on. -/
def store (block : Block α) (i : Nat) (xs : List α) : Option (Block α) :=
  if i + xs.length ≤ block.length then
    some (block.take i ++ xs.map some ++ block.drop (i + xs.length))
  else none

theorem store_eq_some_iff : store block i xs = some block' ↔ i + xs.length ≤ block.length ∧
    block' = block.take i ++ xs.map some ++ block.drop (i + xs.length) := by
  rw [store]
  split
  · rename_i h
    rw [Option.some.injEq, and_iff_right h, eq_comm]
  · rename_i h
    exact iff_of_false nofun fun h' => h h'.1

theorem length_store (h : store block i xs = some block') : block'.length = block.length := by
  obtain ⟨hlen, rfl⟩ := store_eq_some_iff.mp h
  rw [List.length_append, List.length_append, List.length_take, List.length_map, List.length_drop]
  omega

/-- A store behind which a cell lies leaves it alone. -/
theorem getElem?_store (h : store block i xs = some block') {j : Nat} (hj : i + xs.length ≤ j) :
    block'[j]? = block[j]? := by
  obtain ⟨hlen, rfl⟩ := store_eq_some_iff.mp h
  have hfront : (block.take i ++ xs.map some).length = i + xs.length := by
    rw [List.length_append, List.length_take, List.length_map]
    omega
  rw [List.getElem?_append_right (hfront ▸ hj), hfront, List.getElem?_drop]
  congr 1
  omega

/-- **Filling from the front**: the next values go where the block has none yet. -/
theorem store_fresh {written : List α} {n : Nat} (hlen : xs.length ≤ n) :
    store (written.map some ++ new n) written.length xs =
      some ((written ++ xs).map some ++ new (n - xs.length)) := by
  refine store_eq_some_iff.mpr ⟨?_, ?_⟩
  · rw [List.length_append, List.length_map, length_new]
    exact Nat.add_le_add_left hlen _
  · have hwritten : (written.map some).length = written.length := List.length_map some
    rw [← hwritten, List.take_left, List.drop_append, List.map_append, new, new,
      Nat.add_sub_cancel_left, List.drop_replicate, List.drop_of_length_le (Nat.le_add_right _ _)]
    rfl

end Block

end CxxLab.Lib
