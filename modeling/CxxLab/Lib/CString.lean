import Mathlib.Data.List.GetD
import Mathlib.Data.List.TakeWhile

/-!
# Strings that end with a zero byte

A C string has no length: it goes on to the next zero byte, wherever in memory that is. `strncpy` into
a buffer of `n` bytes is the usual way to lose that byte, since it writes one only if there is room
left. So what is read back from such a buffer is the string if it is shorter than the buffer, and
otherwise what fits of it followed by a string that begins where the buffer ends: `read_strncpy`.
-/

set_option autoImplicit false

namespace CxxLab.Lib.CString

/-- The string that begins at the start of `mem`. Without a zero byte in `mem` it does not end
there. -/
def read (mem : List UInt8) : Option (List UInt8) :=
  if 0 ∈ mem then some (mem.takeWhile (· ≠ 0)) else none

/-- `strncpy` of a string into a buffer of `n` bytes. What is left of the buffer is zeroed. -/
def strncpy (n : Nat) (s : List UInt8) : Vector UInt8 n :=
  Vector.ofFn fun i : Fin n => (s.takeWhile (· ≠ 0)).getD i 0

@[simp] theorem read_zero (rest : List UInt8) : read (0 :: rest) = some [] := by
  simp [read]

theorem takeWhile_ne_zero {s : List UInt8} (h : 0 ∉ s) : s.takeWhile (· ≠ 0) = s :=
  List.takeWhile_eq_self_iff.mpr fun b hb => by
    simpa using fun heq : b = 0 => h (heq ▸ hb)

/-- A string begins with all that stands in front of the first zero byte. -/
theorem read_append {s rest : List UInt8} (h : 0 ∉ s) :
    read (s ++ rest) = (read rest).map (s ++ ·) := by
  have htake : (s ++ rest).takeWhile (· ≠ 0) = s ++ rest.takeWhile (· ≠ 0) := by
    rw [List.takeWhile_append, takeWhile_ne_zero h, if_pos rfl]
  rw [read, read, htake]
  by_cases hrest : 0 ∈ rest
  · rw [if_pos (List.mem_append_right s hrest), if_pos hrest, Option.map_some]
  · rw [if_neg (by simp [h, hrest]), if_neg hrest, Option.map_none]

theorem toList_strncpy {n : Nat} {s : List UInt8} (h : 0 ∉ s) :
    (strncpy n s).toList = s.take n ++ List.replicate (n - s.length) 0 := by
  apply List.ext_getElem
  · simp only [Vector.length_toList, List.length_append, List.length_take, List.length_replicate]
    omega
  · intro i hi _
    rw [Vector.length_toList] at hi
    have hget : (strncpy n s)[i] = (s.takeWhile (· ≠ 0)).getD i 0 := Vector.getElem_ofFn hi
    rw [Vector.getElem_toList, hget, takeWhile_ne_zero h, List.getD_eq_getElem?_getD,
      List.getElem_append]
    split
    · rename_i hlt
      rw [List.length_take] at hlt
      rw [List.getElem?_eq_getElem (by omega), List.getElem_take, Option.getD_some]
    · rename_i hge
      rw [List.length_take] at hge
      rw [List.getElem?_eq_none (by omega), List.getElem_replicate, Option.getD_none]

/-- **Reading a copied string back.** -/
theorem read_strncpy {n : Nat} {s : List UInt8} (rest : List UInt8) (h : 0 ∉ s) :
    read ((strncpy n s).toList ++ rest) =
      if s.length < n then some s else (read rest).map (s.take n ++ ·) := by
  have htake : 0 ∉ s.take n := fun hmem => h (List.mem_of_mem_take hmem)
  rw [toList_strncpy h, List.append_assoc, read_append htake]
  split
  · rename_i hlt
    obtain ⟨k, hk⟩ := Nat.exists_eq_succ_of_ne_zero (Nat.sub_ne_zero_of_lt hlt)
    rw [hk, List.replicate_succ, List.cons_append, read_zero, Option.map_some, List.append_nil,
      List.take_of_length_le (Nat.le_of_lt hlt)]
  · rename_i hge
    rw [Nat.sub_eq_zero_of_le (Nat.not_lt.mp hge), List.replicate_zero, List.nil_append]

end CxxLab.Lib.CString
