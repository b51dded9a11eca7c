import Mathlib.Data.List.Basic

/-!
# Lists cut at a separator

`List.splitOn` cuts a list at every occurrence of a separator, and `List.intercalate` puts the
segments together again. What a reader of separated fields needs on top of that: there is no separator
within a segment, and a segment at the end is put behind one separator.
-/

set_option autoImplicit false

namespace CxxLab.Lib

variable {α : Type}

/-- **No segment has a separator in it.** -/
theorem not_mem_of_mem_splitOn [BEq α] [LawfulBEq α] {sep : α} : ∀ {xs l : List α},
    l ∈ xs.splitOn sep → sep ∉ l := by
  intro xs
  induction xs with
  | nil =>
    intro l hl
    rw [List.splitOn_nil, List.mem_singleton] at hl
    rw [hl]
    exact List.not_mem_nil
  | cons x xs ih =>
    intro l hl
    obtain ⟨s, rest, hs⟩ := List.exists_cons_of_ne_nil (List.splitOn_ne_nil sep xs)
    rw [List.splitOn_cons_eq_if_modifyHead, hs] at hl
    rw [hs] at ih
    split at hl
    · rcases List.mem_cons.mp hl with rfl | hl
      · exact List.not_mem_nil
      · exact ih hl
    · rename_i hx
      rcases List.mem_cons.mp hl with rfl | hl
      · intro hmem
        rcases List.mem_cons.mp hmem with heq | hmem
        · exact hx (beq_iff_eq.mpr heq.symm)
        · exact ih List.mem_cons_self hmem
      · exact ih (List.mem_cons_of_mem s hl)

theorem intercalate_concat (sep l : List α) : ∀ {segments : List (List α)}, segments ≠ [] →
    sep.intercalate (segments ++ [l]) = sep.intercalate segments ++ (sep ++ l) := by
  intro segments
  induction segments with
  | nil => intro hne; exact absurd rfl hne
  | cons s rest ih =>
    intro _
    rcases List.eq_nil_or_concat rest with rfl | ⟨_, _, rfl⟩
    · simp [List.intercalate_cons_cons]
    · rw [List.cons_append, List.intercalate_cons_of_ne_nil (by simp), ih (by simp),
        List.intercalate_cons_of_ne_nil (by simp)]
      simp only [List.append_assoc]

end CxxLab.Lib
