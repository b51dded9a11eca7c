import Mathlib.Algebra.Ring.Nat
import Mathlib.Data.List.GetD

/-!
# Values laid out in a block of bytes

A program that keeps its data in a block of bytes reads and writes it by offset: a *slice* is what is
read, a *blit* is what is written. A `Format` says how values of a type are put into a fixed number of
bytes, and `load` and `store` are then access to a field.

Two facts make a layout: a blit into a slice changes that part of the slice (`slice_blit`), and a blit
beside it changes nothing of it (`slice_blit_of_disjoint`). What is known of fields, one by one,
follows from them by arithmetic on offsets.
-/

set_option autoImplicit false

namespace CxxLab.Lib

namespace Layout

variable {n : Nat}

/-- The byte at an offset. There is none outside the block, and 0 stands for it. -/
def byteAt (m : Vector UInt8 n) (i : Nat) : UInt8 := m[i]?.getD 0

/-- `len` bytes from `off` on. -/
def slice (m : Vector UInt8 n) (off len : Nat) : List UInt8 :=
  (List.range len).map fun i => byteAt m (off + i)

/-- `memcpy` of some bytes to `off`. -/
def blit (m : Vector UInt8 n) (off : Nat) (bs : List UInt8) : Vector UInt8 n :=
  Vector.ofFn fun i : Fin n =>
    if off ≤ i ∧ i < off + bs.length then bs.getD (i - off) 0 else m[i]

@[simp] theorem length_slice (m : Vector UInt8 n) (off len : Nat) : (slice m off len).length = len := by
  rw [slice, List.length_map, List.length_range]

@[simp] theorem getElem_slice (m : Vector UInt8 n) (off len i : Nat) (h : i < (slice m off len).length) :
    (slice m off len)[i] = byteAt m (off + i) := by
  simp only [slice, List.getElem_map, List.getElem_range]

theorem slice_congr {m m' : Vector UInt8 n} {off off' len : Nat}
    (h : ∀ i, i < len → byteAt m (off + i) = byteAt m' (off' + i)) :
    slice m off len = slice m' off' len :=
  List.map_congr_left fun i hi => h i (List.mem_range.mp hi)

theorem slice_add (m : Vector UInt8 n) (off k len : Nat) :
    slice m off (k + len) = slice m off k ++ slice m (off + k) len := by
  simp only [slice, List.range_add, List.map_append, List.map_map, Function.comp_def, Nat.add_assoc]

theorem take_slice (m : Vector UInt8 n) (off : Nat) {k len : Nat} (h : k ≤ len) :
    (slice m off len).take k = slice m off k := by
  obtain ⟨r, rfl⟩ := Nat.exists_eq_add_of_le h
  rw [slice_add]
  exact List.take_left' (length_slice m off k)

theorem drop_slice (m : Vector UInt8 n) (off k len : Nat) :
    (slice m off len).drop k = slice m (off + k) (len - k) := by
  by_cases h : k ≤ len
  · obtain ⟨r, rfl⟩ := Nat.exists_eq_add_of_le h
    rw [slice_add, Nat.add_sub_cancel_left]
    exact List.drop_left' (length_slice m off k)
  · rw [List.drop_of_length_le (by rw [length_slice]; omega), Nat.sub_eq_zero_of_le (by omega)]
    rfl

/-- A blit that fits. -/
theorem byteAt_blit {m : Vector UInt8 n} {off : Nat} {bs : List UInt8} (h : off + bs.length ≤ n)
    (i : Nat) :
    byteAt (blit m off bs) i =
      if off ≤ i ∧ i < off + bs.length then bs.getD (i - off) 0 else byteAt m i := by
  by_cases hi : i < n
  · simp only [byteAt, blit, Vector.getElem?_ofFn, hi, dif_pos, Option.getD_some]
    split
    · rfl
    · simp [hi]
  · rw [if_neg (by omega)]
    simp [byteAt, hi]

theorem slice_replicate (off len : Nat) :
    slice (Vector.replicate n 0) off len = List.replicate len 0 := by
  rw [slice, List.eq_replicate_iff]
  refine ⟨by rw [List.length_map, List.length_range], fun b hb => ?_⟩
  obtain ⟨i, -, rfl⟩ := List.mem_map.mp hb
  rw [byteAt, Vector.getElem?_replicate]
  split <;> rfl

/-- **A blit into a slice** replaces that part of it. -/
theorem slice_blit {m : Vector UInt8 n} {off k len : Nat} {bs : List UInt8}
    (hn : off + k + bs.length ≤ n) (hlen : k + bs.length ≤ len) :
    slice (blit m (off + k) bs) off len =
      slice m off k ++ bs ++ slice m (off + k + bs.length) (len - (k + bs.length)) := by
  apply List.ext_getElem
  · simp only [List.length_append, length_slice]
    omega
  · intro i hi _
    rw [length_slice] at hi
    rw [getElem_slice, byteAt_blit hn, List.getElem_append]
    by_cases hlow : i < k
    · rw [if_neg (by omega), dif_pos (by simp only [List.length_append, length_slice]; omega),
        List.getElem_append_left (by rw [length_slice]; exact hlow), getElem_slice]
    · by_cases hhigh : i < k + bs.length
      · rw [if_pos (by omega), dif_pos (by simp only [List.length_append, length_slice]; omega),
          List.getElem_append_right (by rw [length_slice]; omega), List.getD_eq_getElem _ _ (by omega)]
        simp only [length_slice]
        congr 1
        omega
      · rw [if_neg (by omega), dif_neg (by simp only [List.length_append, length_slice]; omega),
          getElem_slice]
        simp only [List.length_append, length_slice]
        congr 1
        omega

theorem slice_blit_self {m : Vector UInt8 n} {off : Nat} {bs : List UInt8}
    (hn : off + bs.length ≤ n) : slice (blit m off bs) off bs.length = bs := by
  have h : slice (blit m (off + 0) bs) off bs.length = _ :=
    slice_blit hn (Nat.le_of_eq (Nat.zero_add _))
  rw [Nat.add_zero, Nat.zero_add, Nat.sub_self] at h
  rw [h]
  simp [slice]

theorem slice_blit_part {m : Vector UInt8 n} {off k len : Nat} {bs : List UInt8}
    (hn : off + bs.length ≤ n) (hlen : k + len ≤ bs.length) :
    slice (blit m off bs) (off + k) len = (bs.drop k).take len := by
  have hcut := drop_slice (blit m off bs) off k bs.length
  rw [slice_blit_self hn] at hcut
  rw [hcut, take_slice _ _ (by omega)]

/-- **A blit beside a slice** is not seen in it. -/
theorem slice_blit_of_disjoint {m : Vector UInt8 n} {off off' len : Nat} {bs : List UInt8}
    (hn : off + bs.length ≤ n) (h : off' + len ≤ off ∨ off + bs.length ≤ off') :
    slice (blit m off bs) off' len = slice m off' len :=
  slice_congr fun i hi => by rw [byteAt_blit hn, if_neg (by omega)]

end Layout

/-! ## Little-endian numbers -/

namespace LittleEndian

/-- The last `w` bytes of `n`, the least significant first. -/
def toBytes : Nat → Nat → List UInt8
  | 0, _ => []
  | w + 1, n => UInt8.ofNat n :: toBytes w (n / 256)

/-- The number with the given bytes. -/
def ofBytes : List UInt8 → Nat
  | [] => 0
  | b :: bs => b.toNat + 256 * ofBytes bs

@[simp] theorem length_toBytes (w n : Nat) : (toBytes w n).length = w := by
  induction w generalizing n with
  | zero => rfl
  | succ w ih => rw [toBytes, List.length_cons, ih]

theorem ofBytes_toBytes (w n : Nat) : ofBytes (toBytes w n) = n % 256 ^ w := by
  induction w generalizing n with
  | zero => rw [toBytes, ofBytes, Nat.pow_zero, Nat.mod_one]
  | succ w ih =>
    have hbyte : (UInt8.ofNat n).toNat = n % 256 := UInt8.toNat_ofNat'
    rw [toBytes, ofBytes, ih, hbyte, Nat.pow_succ, Nat.mul_comm (256 ^ w), Nat.mod_mul]

end LittleEndian

/-! ## Fields -/

/-- How values of a type are put into a fixed number of bytes. -/
structure Format (α : Type) where
  size : Nat
  encode : α → List UInt8
  decode : List UInt8 → α
  length_encode : ∀ a, (encode a).length = size
  decode_encode : ∀ a, decode (encode a) = a

namespace Format

variable {α β : Type} {n : Nat}

def load (F : Format α) (m : Vector UInt8 n) (off : Nat) : α := F.decode (Layout.slice m off F.size)

def store (F : Format α) (m : Vector UInt8 n) (off : Nat) (a : α) : Vector UInt8 n :=
  Layout.blit m off (F.encode a)

/-- One byte. -/
def u8 : Format UInt8 where
  size := 1
  encode b := [b]
  decode bs := bs.headD 0
  length_encode _ := rfl
  decode_encode _ := rfl

/-- A 32-bit number, the least significant byte first. -/
def u32 : Format UInt32 where
  size := 4
  encode w := LittleEndian.toBytes 4 w.toNat
  decode bs := UInt32.ofNat (LittleEndian.ofBytes bs)
  length_encode w := LittleEndian.length_toBytes 4 w.toNat
  decode_encode w := by
    have hlt : w.toNat < 256 ^ 4 := w.toNat_lt
    rw [LittleEndian.ofBytes_toBytes, Nat.mod_eq_of_lt hlt, UInt32.ofNat_toNat]

@[simp] theorem size_u8 : u8.size = 1 := rfl

@[simp] theorem size_u32 : u32.size = 4 := rfl

/-- A field that was set has the value it was set to. -/
theorem load_store (F : Format α) {m : Vector UInt8 n} {off : Nat} {a : α}
    (hn : off + F.size ≤ n) : F.load (F.store m off a) off = a := by
  rw [load, store, ← F.length_encode a, Layout.slice_blit_self (by rw [F.length_encode]; exact hn),
    F.decode_encode]

theorem load_store_of_disjoint (F : Format α) (G : Format β) {m : Vector UInt8 n} {off : Nat}
    (off' : Nat) {b : β} (hn : off + G.size ≤ n) (h : off' + F.size ≤ off ∨ off + G.size ≤ off') :
    F.load (G.store m off b) off' = F.load m off' := by
  rw [load, store, Layout.slice_blit_of_disjoint (by rw [G.length_encode]; exact hn)
    (by rw [G.length_encode]; exact h), load]

theorem load_blit_of_disjoint (F : Format α) {m : Vector UInt8 n} {off off' : Nat} {bs : List UInt8}
    (hn : off + bs.length ≤ n) (h : off' + F.size ≤ off ∨ off + bs.length ≤ off') :
    F.load (Layout.blit m off bs) off' = F.load m off' := by
  rw [load, Layout.slice_blit_of_disjoint hn h, load]

theorem load_replicate (F : Format α) (off : Nat) :
    F.load (Vector.replicate n 0) off = F.decode (List.replicate F.size 0) := by
  rw [load, Layout.slice_replicate]

theorem load_blit_replicate (F : Format α) {m : Vector UInt8 n} {off k len : Nat}
    (hn : off + len ≤ n) (hk : k + F.size ≤ len) :
    F.load (Layout.blit m off (List.replicate len 0)) (off + k) =
      F.decode (List.replicate F.size 0) := by
  rw [load, Layout.slice_blit_part (by rw [List.length_replicate]; exact hn)
    (by rw [List.length_replicate]; exact hk), List.drop_replicate, List.take_replicate,
    Nat.min_eq_left (by omega)]

/-- **A field of a copy** is the field of what was copied. -/
theorem load_copy (F : Format α) {n' : Nat} {m : Vector UInt8 n} (src : Vector UInt8 n')
    (off' : Nat) {off k len : Nat} (hn : off + len ≤ n) (hk : k + F.size ≤ len) :
    F.load (Layout.blit m off (Layout.slice src off' len)) (off + k) = F.load src (off' + k) := by
  rw [load, Layout.slice_blit_part (by rw [Layout.length_slice]; exact hn)
    (by rw [Layout.length_slice]; exact hk), Layout.drop_slice, Layout.take_slice _ _ (by omega), load]

end Format

end CxxLab.Lib
