import CxxLab.Lib.Split

/-!
# `db_lab/tokener.h` — cutting a line at its spaces

`Tokener::Parse` walks over a line with two positions: where the token in hand begins, and the
space that ends it. What it cuts out is `line.splitOn` of a space, with the one exception the code
makes at the end: the segment behind the last space is kept only if there is something in it. So a
line can be put together again from its tokens, but for a space at the very end of it.

A position that is `npos` is `none`, and `substr` is `none` where `std::string::substr` throws. That
it never does so here is part of the result: the loop steps over a space it has found, and so never
past the end of the line.
-/

set_option autoImplicit false

namespace CxxLab.DbLab

open CxxLab.Lib

/-- The bytes of a `std::string`. -/
abbrev Str := List UInt8

/-- The bytes of a string literal. -/
def lit (s : String) : Str := s.toList.map fun c => UInt8.ofNat c.toNat

namespace Tokener

/-- `DELIMITER`. -/
def delimiter : UInt8 := 32

/-- `line.find(DELIMITER, pos)`. -/
def find (line : Str) (pos : Nat) : Option Nat :=
  ((line.drop pos).findIdx? (· == delimiter)).map (pos + ·)

/-- `line.substr(pos, count)`. -/
def substr (line : Str) (pos : Nat) (count : Option Nat) : Option Str :=
  if pos > line.length then none
  else some ((line.drop pos).take (count.getD (line.length - pos)))

theorem find_lt {line : Str} {pos i : Nat} (h : find line pos = some i) :
    pos ≤ i ∧ i < line.length := by
  obtain ⟨j, hj, rfl⟩ := Option.map_eq_some_iff.mp h
  have hlt := (List.findIdx?_eq_some_iff_findIdx_eq.mp hj).1
  rw [List.length_drop] at hlt
  omega

/-- The `while` loop of `Parse` and what follows it. -/
def parseLoop (line : Str) (prePos : Nat) (out : List Str) : Option (List Str) :=
  match _ : find line prePos with
  | some pos => do
    let l ← substr line prePos (some (pos - prePos))
    parseLoop line (pos + 1) (out ++ [l])
  | none => do
    let l ← substr line prePos none
    return if l.length ≠ 0 then out ++ [l] else out
termination_by line.length - prePos
decreasing_by
  have := find_lt ‹find line prePos = some pos›
  omega

/-- `Tokener::Parse`. -/
def parse (line : Str) : Option (List Str) :=
  if line.length = 0 then some [] else parseLoop line 0 []

/-! ## What the loop cuts out -/

/-- Leave out the last segment if there is nothing in it. -/
def dropEmptyLast (segments : List Str) : List Str :=
  if segments.getLast? = some [] then segments.dropLast else segments

theorem dropEmptyLast_cons {segments : List Str} (l : Str) (hne : segments ≠ []) :
    dropEmptyLast (l :: segments) = l :: dropEmptyLast segments := by
  obtain ⟨s, rest, rfl⟩ := List.exists_cons_of_ne_nil hne
  rw [dropEmptyLast, dropEmptyLast, List.getLast?_cons_cons]
  split <;> rfl

/-- No space from here on: the rest of the line is one segment. -/
theorem find_eq_none {line : Str} {pos : Nat} (h : find line pos = none) :
    delimiter ∉ line.drop pos := by
  intro hmem
  have hfind := List.findIdx?_eq_none_iff.mp (Option.map_eq_none_iff.mp h) delimiter hmem
  simp at hfind

/-- A space found is the first one: what is in front of it is a segment. -/
theorem find_eq_some {line : Str} {pos i : Nat} (h : find line pos = some i) :
    ∃ l, line.drop pos = l ++ delimiter :: line.drop (i + 1) ∧ delimiter ∉ l ∧
      substr line pos (some (i - pos)) = some l := by
  obtain ⟨hle, hlt⟩ := find_lt h
  obtain ⟨j, hj, rfl⟩ := Option.map_eq_some_iff.mp h
  obtain ⟨hj', hat, hbefore⟩ := List.findIdx?_eq_some_iff_getElem.mp hj
  refine ⟨(line.drop pos).take j, ?_, ?_, ?_⟩
  · have hdrop : line.drop (pos + j + 1) = (line.drop pos).drop (j + 1) := by
      rw [List.drop_drop, Nat.add_assoc]
    rw [hdrop, ← eq_of_beq hat, List.getElem_cons_drop, List.take_append_drop]
  · intro hmem
    obtain ⟨k, hk, hkeq⟩ := List.mem_iff_getElem.mp hmem
    rw [List.length_take] at hk
    rw [List.getElem_take] at hkeq
    exact hbefore k (by omega) (beq_iff_eq.mpr hkeq)
  · rw [substr, if_neg (by omega), Option.getD_some, Nat.add_sub_cancel_left]

theorem substr_none {line : Str} {pos : Nat} (h : pos ≤ line.length) :
    substr line pos none = some (line.drop pos) := by
  rw [substr, if_neg (Nat.not_lt.mpr h), Option.getD_none, ← List.length_drop, List.take_length]

/-- **The loop**: what it adds to the tokens is the rest of the line, cut at its spaces. -/
theorem parseLoop_eq {line : Str} {prePos : Nat} {out : List Str} (h : prePos ≤ line.length) :
    parseLoop line prePos out =
      some (out ++ dropEmptyLast ((line.drop prePos).splitOn delimiter)) := by
  induction prePos, out using parseLoop.induct line with
  | case1 prePos out pos hfind ih =>
    obtain ⟨l, hdrop, hl, hsub⟩ := find_eq_some hfind
    have hlt := (find_lt hfind).2
    rw [parseLoop]
    split
    · rename_i pos' hfind'
      cases hfind.symm.trans hfind'
      rw [hsub, Option.bind_eq_bind, Option.bind_some, ih l hlt, hdrop,
        List.splitOn_append_cons_self_of_not_mem hl,
        dropEmptyLast_cons l (List.splitOn_ne_nil _ _), List.append_assoc, List.singleton_append]
    · rename_i hfind'
      cases hfind.symm.trans hfind'
  | case2 prePos out hfind =>
    rw [parseLoop]
    split
    · rename_i pos' hfind'
      cases hfind.symm.trans hfind'
    · rw [substr_none h, List.splitOn_eq_singleton (find_eq_none hfind), dropEmptyLast]
      cases line.drop prePos with
      | nil => simp
      | cons b bs => simp

theorem parse_eq (line : Str) : parse line = some (dropEmptyLast (line.splitOn delimiter)) := by
  rw [parse]
  split
  · rename_i hlen
    rw [List.length_eq_zero_iff.mp hlen]
    rfl
  · rw [parseLoop_eq (Nat.zero_le _), List.drop_zero, List.nil_append]

/-! ## Tokens -/

theorem mem_of_mem_dropEmptyLast {segments : List Str} {l : Str}
    (h : l ∈ dropEmptyLast segments) : l ∈ segments := by
  rw [dropEmptyLast] at h
  split at h
  · exact List.dropLast_subset segments h
  · exact h

/-- Put together again, the tokens are the line, less the space at its end. -/
theorem intercalate_dropEmptyLast (line : Str) :
    [delimiter].intercalate (dropEmptyLast (line.splitOn delimiter)) =
      if line.getLast? = some delimiter then line.dropLast else line := by
  have hline : [delimiter].intercalate (line.splitOn delimiter) = line :=
    List.intercalate_splitOn delimiter
  rcases List.eq_nil_or_concat (line.splitOn delimiter) with hnil | ⟨init, l, hsplit⟩
  · exact absurd hnil (List.splitOn_ne_nil _ _)
  rw [List.concat_eq_append] at hsplit
  have hl : delimiter ∉ l := not_mem_of_mem_splitOn (by rw [hsplit]; simp)
  rw [hsplit] at hline ⊢
  rw [dropEmptyLast, List.getLast?_concat, List.dropLast_concat]
  by_cases hempty : l = []
  · subst hempty
    rw [if_pos rfl]
    by_cases hinit : init = []
    · subst hinit
      rw [← hline]
      rfl
    · rw [intercalate_concat _ [] hinit, List.append_nil] at hline
      rw [← hline, List.getLast?_concat, if_pos rfl, List.dropLast_concat]
  · have hlast : line.getLast? = l.getLast? := by
      by_cases hinit : init = []
      · subst hinit
        rw [← hline, List.nil_append, List.intercalate_singleton]
      · rw [← hline, intercalate_concat _ l hinit, List.singleton_append, List.getLast?_append_cons,
          List.getLast?_cons_of_ne_nil hempty]
    have hne : ¬ line.getLast? = some delimiter := by
      rw [hlast]
      exact fun h => hl (List.mem_of_getLast? h)
    rw [if_neg (by simpa using hempty), if_neg hne, hline]

/-- **`Parse` is splitting on single spaces**: the segments between the spaces, the empty ones too,
but not an empty one at the end.

So no token has a space in it, and with spaces put between them again the tokens are the line, less
a space at its end. The loop of the source finds one space after the other; it is shown to end, and
to be the splitting of Mathlib. -/
theorem parse_eq_splitOn (line : Str) :
    ∃ tokens, parse line = some tokens ∧ tokens = dropEmptyLast (line.splitOn delimiter) ∧
      (∀ l ∈ tokens, delimiter ∉ l) ∧
      [delimiter].intercalate tokens =
        if line.getLast? = some delimiter then line.dropLast else line :=
  ⟨_, parse_eq line, rfl,
    fun _ hl => not_mem_of_mem_splitOn (mem_of_mem_dropEmptyLast hl),
    intercalate_dropEmptyLast line⟩

end Tokener

end CxxLab.DbLab
