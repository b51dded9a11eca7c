import Mathlib.Algebra.Ring.Nat
import Mathlib.Data.List.TakeWhile

/-!
# Decimal numerals

Numbers as the bytes a program prints for them and reads them from. `stoul` is the reader of the C++
library, and it is more generous than one may expect: it passes over white space, it takes a sign, and
a minus sign in front of a number gives the number's complement in 64 bits. What it reads to the end
is white space, a sign and digits, each but the digits optional (`stoul_signed`, `signed_of_stoul`).
-/

set_option autoImplicit false

namespace CxxLab.Lib.Decimal

/-- The digits `0` to `9`. -/
def isDigit (b : UInt8) : Bool := 48 ≤ b && b ≤ 57

/-- The number a row of digits denotes. -/
def value (ds : List UInt8) : Nat := ds.foldl (fun n b => 10 * n + (b.toNat - 48)) 0

/-- The digits of a number, without leading zeros. -/
def text (n : Nat) : List UInt8 := (Nat.toDigits 10 n).map fun c => UInt8.ofNat c.toNat

/-- A row of digits with at least one digit in it. -/
def Numeral (s : List UInt8) : Prop := s ≠ [] ∧ ∀ b ∈ s, isDigit b

/-! ## Printing -/

theorem toNat_ofDigit {c : Char} (hc : c.isDigit) : (UInt8.ofNat c.toNat).toNat = c.toNat ∧
    48 ≤ c.toNat ∧ c.toNat ≤ 57 := by
  obtain ⟨hlo, hhi⟩ : 48 ≤ c.toNat ∧ c.toNat ≤ 57 := Char.isDigit_iff_toNat.mp hc
  refine ⟨?_, hlo, hhi⟩
  rw [UInt8.toNat_ofNat', Nat.mod_eq_of_lt (by omega)]

theorem numeral_text (n : Nat) : Numeral (text n) := by
  refine ⟨by simp [text, Nat.toDigits_ne_nil], fun b hb => ?_⟩
  obtain ⟨c, hc, rfl⟩ := List.mem_map.mp hb
  obtain ⟨hval, hlo, hhi⟩ :=
    toNat_ofDigit (Nat.isDigit_of_mem_toDigits (by decide) (Nat.le_refl 10) hc)
  simp only [isDigit, Bool.and_eq_true, decide_eq_true_eq, UInt8.le_iff_toNat_le, hval]
  exact ⟨hlo, hhi⟩

/-- **A number is what its digits denote.** -/
theorem value_text (n : Nat) : value (text n) = n := by
  have hfold : ∀ (cs : List Char) (init : Nat), (∀ c ∈ cs, c.isDigit) →
      (cs.map fun c => UInt8.ofNat c.toNat).foldl (fun n b => 10 * n + (b.toNat - 48)) init =
        Nat.ofDigitChars 10 cs init := by
    intro cs
    induction cs with
    | nil => intro init _; rfl
    | cons c cs ih =>
      intro init h
      have hc := (toNat_ofDigit (h c List.mem_cons_self)).1
      rw [List.map_cons, List.foldl_cons, ih _ fun c' hc' => h c' (List.mem_cons_of_mem c hc'), hc]
      rfl
  rw [value, text, hfold _ _ fun c hc => Nat.isDigit_of_mem_toDigits (by decide) (Nat.le_refl 10) hc,
    Nat.ofDigitChars_ten_toDigits]

/-! ## Reading -/

/-- `std::isspace` of the C locale. -/
def isSpace (b : UInt8) : Bool := b = 32 || 9 ≤ b && b ≤ 13

/-- `std::stoul(s, &pos)`, in base 10: the value and `pos`. It throws where there is no number or one
that does not fit into an `unsigned long`. -/
def stoul (s : List UInt8) : Option (Nat × Nat) :=
  let rest := s.dropWhile isSpace
  let sign := if rest.head? = some 43 ∨ rest.head? = some 45 then 1 else 0
  let ds := (rest.drop sign).takeWhile isDigit
  if ds = [] ∨ 2 ^ 64 ≤ value ds then none
  else some (if rest.head? = some 45 then (2 ^ 64 - value ds) % 2 ^ 64 else value ds,
    (s.takeWhile isSpace).length + sign + ds.length)

/-- White space, perhaps a sign, and `ds`. -/
def Signed (s ds : List UInt8) : Prop :=
  ∃ ws sign, s = ws ++ (sign ++ ds) ∧ (∀ b ∈ ws, isSpace b) ∧ (sign = [] ∨ sign = [43] ∨ sign = [45])

theorem not_isSpace_of_isDigit {b : UInt8} (h : isDigit b) : isSpace b = false := by
  simp only [isDigit, isSpace, Bool.and_eq_true, decide_eq_true_eq, Bool.or_eq_false_iff,
    decide_eq_false_iff_not, Bool.and_eq_false_iff, UInt8.le_iff_toNat_le, ← UInt8.toNat_inj] at h ⊢
  have h48 : (48 : UInt8).toNat = 48 := rfl
  have h32 : (32 : UInt8).toNat = 32 := rfl
  have h13 : (13 : UInt8).toNat = 13 := rfl
  omega

/-- White space stops at a number: at its sign, or at its first digit. -/
theorem span_isSpace {ws rest : List UInt8} (hws : ∀ b ∈ ws, isSpace b)
    (hrest : ∀ b ∈ rest.head?, isSpace b = false) :
    (ws ++ rest).takeWhile isSpace = ws ∧ (ws ++ rest).dropWhile isSpace = rest := by
  rw [List.takeWhile_append_of_pos hws, List.dropWhile_append_of_pos hws]
  cases rest with
  | nil => exact ⟨List.append_nil ws, rfl⟩
  | cons b bs =>
    have hb := hrest b rfl
    rw [List.takeWhile_cons_of_neg (by simp [hb]), List.dropWhile_cons_of_neg (by simp [hb])]
    exact ⟨List.append_nil ws, rfl⟩

/-- **What is read to the end.** -/
theorem stoul_signed {ws sign ds : List UInt8} (hws : ∀ b ∈ ws, isSpace b)
    (hsign : sign = [] ∨ sign = [43] ∨ sign = [45]) (hds : Numeral ds) (hlt : value ds < 2 ^ 64) :
    stoul (ws ++ (sign ++ ds)) = some
      (if sign = [45] then (2 ^ 64 - value ds) % 2 ^ 64 else value ds,
        (ws ++ (sign ++ ds)).length) := by
  obtain ⟨hne, hdigits⟩ := hds
  obtain ⟨d, ds', rfl⟩ := List.exists_cons_of_ne_nil hne
  have hd := hdigits d List.mem_cons_self
  have hhead : ∀ b ∈ (sign ++ d :: ds').head?, isSpace b = false := by
    intro b hb
    rcases hsign with rfl | rfl | rfl
    · cases hb
      exact not_isSpace_of_isDigit hd
    · cases hb
      rfl
    · cases hb
      rfl
  have hplus : d ≠ 43 := by rintro rfl; cases hd
  have hminus : d ≠ 45 := by rintro rfl; cases hd
  obtain ⟨htake, hdrop⟩ := span_isSpace hws hhead
  have hall : (d :: ds').takeWhile isDigit = d :: ds' := List.takeWhile_eq_self_iff.mpr hdigits
  rw [stoul, htake, hdrop]
  rcases hsign with rfl | rfl | rfl
  · simpa [hplus, hminus, hall] using hlt
  · simpa [hall, Nat.add_comm, Nat.add_left_comm] using hlt
  · simpa [hall, Nat.add_comm, Nat.add_left_comm] using hlt

/-- What `stoul` passes over as a sign. -/
theorem take_sign {rest : List UInt8} {k : Nat}
    (hk : (if rest.head? = some 43 ∨ rest.head? = some 45 then 1 else 0) = k) :
    (rest.take k = [] ∨ rest.take k = [43] ∨ rest.take k = [45]) ∧ (rest.take k).length = k := by
  rw [← hk]
  cases rest with
  | nil => simp
  | cons b bs =>
    split
    · rename_i hhead
      rcases hhead with hb | hb
      · cases hb
        exact ⟨Or.inr (Or.inl rfl), rfl⟩
      · cases hb
        exact ⟨Or.inr (Or.inr rfl), rfl⟩
    · exact ⟨Or.inl rfl, rfl⟩

/-- **Only that is read to the end.** -/
theorem signed_of_stoul {s : List UInt8} {v pos : Nat} (h : stoul s = some (v, pos))
    (hpos : s.length - pos = 0) : ∃ ds, Signed s ds ∧ Numeral ds ∧ value ds < 2 ^ 64 := by
  rw [stoul] at h
  generalize hrest : s.dropWhile isSpace = rest at h
  generalize hsign : (if rest.head? = some 43 ∨ rest.head? = some 45 then 1 else 0) = k at h
  generalize hds : (rest.drop k).takeWhile isDigit = ds at h
  split at h
  · cases h
  rename_i hno
  obtain ⟨hne, hge⟩ := not_or.mp hno
  cases h
  have hs : s = s.takeWhile isSpace ++ (rest.take k ++ rest.drop k) := by
    rw [List.take_append_drop, ← hrest, List.takeWhile_append_dropWhile]
  obtain ⟨htake, hlen⟩ := take_sign hsign
  -- Nothing is left behind the digits.
  have hdrop : rest.drop k = ds := by
    have hsum := congrArg List.length hs
    simp only [List.length_append, hlen] at hsum
    have hle : (rest.drop k).length ≤ ds.length := by omega
    rw [← hds] at hle ⊢
    exact ((List.takeWhile_prefix _).eq_of_length_le hle).symm
  rw [hdrop] at hs
  refine ⟨ds, ⟨_, _, hs, fun b hb => List.mem_takeWhile_imp hb, htake⟩, ⟨hne, fun b hb => ?_⟩,
    Nat.not_le.mp hge⟩
  rw [← hds] at hb
  exact List.mem_takeWhile_imp hb

theorem stoul_numeral {ds : List UInt8} (hds : Numeral ds) (hlt : value ds < 2 ^ 64) :
    stoul ds = some (value ds, ds.length) := by
  simpa using @stoul_signed [] [] ds (by simp) (Or.inl rfl) hds hlt

end CxxLab.Lib.Decimal
