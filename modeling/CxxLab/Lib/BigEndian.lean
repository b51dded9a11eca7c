import Mathlib.Algebra.Ring.Nat

/-!
# Big-endian numbers

A number as a fixed count of bytes, the most significant first. This is the format in which
byte-wise comparison of keys is comparison of the numbers in them, and that is why stores with
ordered byte-string keys use it: `compare_toBytes` is the reason a range scan over such keys is a
range of numbers.
-/

set_option autoImplicit false

namespace CxxLab.Lib.BigEndian

/-- The last `w` bytes of `n`. -/
def toBytes : Nat → Nat → List UInt8
  | 0, _ => []
  | w + 1, n => UInt8.ofNat (n / 256 ^ w) :: toBytes w n

/-- The number with the given bytes. -/
def ofBytes : List UInt8 → Nat
  | [] => 0
  | b :: bs => b.toNat * 256 ^ bs.length + ofBytes bs

@[simp] theorem length_toBytes (w n : Nat) : (toBytes w n).length = w := by
  induction w with
  | zero => rfl
  | succ w ih => rw [toBytes, List.length_cons, ih]

theorem ofBytes_lt (bs : List UInt8) : ofBytes bs < 256 ^ bs.length := by
  induction bs with
  | nil => exact Nat.one_pos
  | cons b bs ih =>
    have hb : b.toNat < 256 := b.toNat_lt
    have hmul : (b.toNat + 1) * 256 ^ bs.length ≤ 256 * 256 ^ bs.length :=
      Nat.mul_le_mul_right _ hb
    rw [Nat.succ_mul] at hmul
    rw [ofBytes, List.length_cons, Nat.pow_succ, Nat.mul_comm (256 ^ bs.length)]
    omega

theorem ofBytes_toBytes (w n : Nat) : ofBytes (toBytes w n) = n % 256 ^ w := by
  induction w with
  | zero => simp [toBytes, ofBytes, Nat.mod_one]
  | succ w ih =>
    rw [toBytes, ofBytes, length_toBytes, ih, Nat.pow_succ, Nat.mod_mul]
    have hbyte : (UInt8.ofNat (n / 256 ^ w)).toNat = n / 256 ^ w % 256 := UInt8.toNat_ofNat'
    rw [hbyte, Nat.mul_comm, Nat.add_comm]

theorem ofBytes_toBytes_of_lt {w n : Nat} (h : n < 256 ^ w) : ofBytes (toBytes w n) = n := by
  rw [ofBytes_toBytes, Nat.mod_eq_of_lt h]

theorem compare_add_left (k n m : Nat) : compare (k + n) (k + m) = compare n m := by
  rcases Nat.lt_trichotomy n m with hlt | heq | hgt
  · rw [Std.compare_eq_lt.mpr hlt, Std.compare_eq_lt.mpr (by omega)]
  · rw [heq, Std.compare_self, Std.compare_self]
  · rw [Std.compare_eq_gt.mpr hgt, Std.compare_eq_gt.mpr (by omega)]

/-- **Byte-wise order is the order of the numbers.** -/
theorem compare_ofBytes : ∀ {bs cs : List UInt8}, bs.length = cs.length →
    compare bs cs = compare (ofBytes bs) (ofBytes cs) := by
  intro bs
  induction bs with
  | nil =>
    intro cs hlen
    cases List.length_eq_zero_iff.mp hlen.symm
    rfl
  | cons b bs ih =>
    intro cs hlen
    cases cs with
    | nil => simp at hlen
    | cons c cs =>
      have hlen' : bs.length = cs.length := Nat.succ.inj hlen
      have hb := ofBytes_lt bs
      have hc := ofBytes_lt cs
      rw [hlen'] at hb
      rw [List.compare_cons_cons, ih hlen', ofBytes, ofBytes, hlen']
      -- The first bytes decide unless they are equal: what follows is below one unit of them.
      rcases Nat.lt_trichotomy b.toNat c.toNat with hlt | heq | hgt
      · have hunit : (b.toNat + 1) * 256 ^ cs.length ≤ c.toNat * 256 ^ cs.length :=
          Nat.mul_le_mul_right _ hlt
        rw [Nat.succ_mul] at hunit
        have hleft : compare b c = .lt := Std.compare_eq_lt.mpr (UInt8.lt_iff_toNat_lt.mpr hlt)
        rw [hleft, Ordering.lt_then]
        exact (Std.compare_eq_lt.mpr (by omega)).symm
      · cases UInt8.toNat_inj.mp heq
        rw [Std.compare_self, Ordering.eq_then, compare_add_left]
      · have hunit : (c.toNat + 1) * 256 ^ cs.length ≤ b.toNat * 256 ^ cs.length :=
          Nat.mul_le_mul_right _ hgt
        rw [Nat.succ_mul] at hunit
        have hright : compare b c = .gt := Std.compare_eq_gt.mpr (UInt8.lt_iff_toNat_lt.mpr hgt)
        rw [hright, Ordering.gt_then]
        exact (Std.compare_eq_gt.mpr (by omega)).symm

theorem compare_toBytes {w n m : Nat} (hn : n < 256 ^ w) (hm : m < 256 ^ w) :
    compare (toBytes w n) (toBytes w m) = compare n m := by
  rw [compare_ofBytes (by simp), ofBytes_toBytes_of_lt hn, ofBytes_toBytes_of_lt hm]

end CxxLab.Lib.BigEndian
