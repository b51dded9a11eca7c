import Mathlib.Algebra.Ring.Int.Defs
import CxxLab.Lib.BigEndian
import CxxLab.Lib.Block

/-!
# `just_lab/main.cpp` — an array of vectors, dumped and loaded

The dump is the dimension, the number of rows and the floats of the rows one after another, as they
are in memory. It is loaded a slice of rows at a time. Where a slice goes is told by `pos`, the
number of rows before it, which is made a number of floats by the size of a float: with vectors of
any other dimension than four it is the wrong place.

Memory is bytes here, and so are the floats, four each. To write outside the array is to have no
result, and so is an `int` that overflows in `++cnt`. The array and what is read into it are in the
range of a pointer difference; then `pos`, which is an `int` as well, is the one number that may be
cut off.
-/

set_option autoImplicit false

namespace CxxLab.JustLab

open CxxLab.Lib

def sizeofFloat : Nat := 4

/-- What `mock_data` makes: `repo`, with the two flags. -/
structure Dump where
  dim : Nat
  size : Nat
  /-- The bytes of the array. -/
  repo : List UInt8
  one_le_dim : 1 ≤ dim
  dim_lt : dim < 2 ^ 31
  size_lt : size < 2 ^ 63
  length_repo : repo.length = sizeofFloat * (dim * size)
  repo_fits : repo.length < 2 ^ 63

/-- The slice size. -/
structure Slice where
  rows : Nat
  pos : 0 < rows
  rows_lt : rows < 2 ^ 31

theorem Dump.length_eq (d : Dump) : d.repo.length = sizeofFloat * d.dim * d.size :=
  d.length_repo.trans (Nat.mul_assoc _ _ _).symm

/-- The bytes of a number, as they are in memory. -/
def toObject (w n : Nat) : List UInt8 := (BigEndian.toBytes w n).reverse

def ofObject (bytes : List UInt8) : Nat := BigEndian.ofBytes bytes.reverse

/-- The dump branch of `main`. -/
def dump (d : Dump) : List UInt8 := toObject 4 d.dim ++ toObject 8 d.size ++ d.repo

/-- `repo + pos * sizeof(float)` in bytes from `repo`: `pos` is a `size_t` there. -/
def sliceOffset (pos : Int) : Nat := sizeofFloat * (pos * sizeofFloat % 2 ^ 64).toNat

/-- `pos += to_load`. -/
def advance (pos : Int) (toLoad : Nat) : Int := (pos + toLoad).bmod (2 ^ 32)

/-- `to_load`, of the rows that are left. -/
def toLoad (slice : Slice) (left : Nat) : Nat := if left ≥ slice.rows then slice.rows else left

theorem toLoad_eq_min (slice : Slice) (left : Nat) : toLoad slice left = min slice.rows left := by
  rw [toLoad]
  split <;> omega

/-- The loop of the load branch, with what is left of the file. -/
def loadSlices (dim : Nat) (slice : Slice) (repo : Block UInt8) (f : List UInt8) (pos : Int)
    (cnt left : Nat) : Option (Block UInt8) :=
  if left > 0 then
    let toLoad := toLoad slice left
    let n := sizeofFloat * dim * toLoad % 2 ^ 64
    match repo.store (sliceOffset pos) (f.take n) with
    | none => none
    | some repo =>
      if cnt + 1 < 2 ^ 31 then
        loadSlices dim slice repo (f.drop n) (advance pos toLoad) (cnt + 1) (left - toLoad)
      else none
  else some repo
termination_by left
decreasing_by
  have := slice.pos
  rw [toLoad_eq_min]
  omega

/-- The load branch of `main`. A sign bit is not set in what `mock_data` writes. -/
def load (slice : Slice) (f : List UInt8) : Option (Block UInt8) :=
  let dim := ofObject (f.take 4)
  let size := ofObject ((f.drop 4).take 8)
  if dim < 2 ^ 31 ∧ size < 2 ^ 63 then
    loadSlices dim slice (.new (sizeofFloat * (dim * size))) ((f.drop 4).drop 8) 0 0 size
  else none

/-- The load branch with the one read of all that is commented out there. -/
def loadWhole (f : List UInt8) : Option (Block UInt8) :=
  let dim := ofObject (f.take 4)
  let size := ofObject ((f.drop 4).take 8)
  if dim < 2 ^ 31 ∧ size < 2 ^ 63 then
    (Block.new (sizeofFloat * (dim * size))).store 0
      (((f.drop 4).drop 8).take (sizeofFloat * dim * size % 2 ^ 64))
  else none

/-! ## The header -/

theorem length_toObject (w n : Nat) : (toObject w n).length = w := by
  rw [toObject, List.length_reverse, BigEndian.length_toBytes]

theorem ofObject_toObject {w n : Nat} (h : n < 256 ^ w) : ofObject (toObject w n) = n := by
  rw [ofObject, toObject, List.reverse_reverse, BigEndian.ofBytes_toBytes_of_lt h]

theorem take_dump (d : Dump) : ofObject ((dump d).take 4) = d.dim := by
  rw [dump, List.append_assoc, List.take_left' (length_toObject 4 d.dim)]
  exact ofObject_toObject (Nat.lt_trans d.dim_lt (by decide))

theorem drop_dump (d : Dump) : (dump d).drop 4 = toObject 8 d.size ++ d.repo := by
  rw [dump, List.append_assoc, List.drop_left' (length_toObject 4 d.dim)]

theorem size_dump (d : Dump) : ofObject (((dump d).drop 4).take 8) = d.size := by
  rw [drop_dump, List.take_left' (length_toObject 8 d.size)]
  exact ofObject_toObject (Nat.lt_trans d.size_lt (by decide))

theorem payload_dump (d : Dump) : ((dump d).drop 4).drop 8 = d.repo := by
  rw [drop_dump, List.drop_left' (length_toObject 8 d.size)]

theorem load_dump (slice : Slice) (d : Dump) : load slice (dump d) =
    loadSlices d.dim slice (.new d.repo.length) d.repo 0 0 d.size := by
  rw [load, take_dump, size_dump, payload_dump, if_pos ⟨d.dim_lt, d.size_lt⟩, d.length_repo]

/-- **One read** of the whole payload. -/
theorem loadWhole_dump (d : Dump) : loadWhole (dump d) = some (d.repo.map some) := by
  have hn : sizeofFloat * d.dim * d.size % 2 ^ 64 = d.repo.length := by
    rw [← d.length_eq, Nat.mod_eq_of_lt (Nat.lt_trans d.repo_fits (by decide))]
  rw [loadWhole, take_dump, size_dump, payload_dump, if_pos ⟨d.dim_lt, d.size_lt⟩, hn,
    List.take_length, ← d.length_repo]
  have hfill : Block.store (([] : List UInt8).map some ++ Block.new d.repo.length) 0 d.repo =
      some (([] ++ d.repo).map some ++ Block.new (d.repo.length - d.repo.length)) :=
    Block.store_fresh (Nat.le_refl _)
  rw [Nat.sub_self] at hfill
  simpa [Block.new] using hfill

/-! ## Slices

The number of slices less one is `lastSlice`, and the last one begins at `lastPos`. -/

def lastSlice (slice : Slice) (left : Nat) : Nat := (left - 1) / slice.rows

def lastPos (slice : Slice) (pos left : Nat) : Nat := pos + lastSlice slice left * slice.rows

/-- **The exact condition**: there is one slice, or the vectors have four floats, and the position
of the last slice and the number of all of them are in the range of an `int`. -/
def SlicesFit (slice : Slice) (d : Dump) : Prop :=
  d.size ≤ slice.rows ∨
    d.dim = 4 ∧ lastPos slice 0 d.size < 2 ^ 31 ∧ lastSlice slice d.size + 1 < 2 ^ 31

section Turns

variable {slice : Slice} {left pos : Nat}

theorem sliceOffset_natCast (h : pos < 2 ^ 31) : sliceOffset pos = 16 * pos := by
  rw [sliceOffset, sizeofFloat]
  omega

/-- A position that was cut off is before the array, and far behind its end. -/
theorem sliceOffset_cut {pos : Int} (hneg : pos < 0) (hmin : -2 ^ 31 ≤ pos) :
    2 ^ 63 ≤ sliceOffset pos := by
  rw [sliceOffset, sizeofFloat]
  omega

theorem advance_natCast {n : Nat} (h : pos + n < 2 ^ 31) : advance pos n = (pos + n : Nat) := by
  simp only [advance, Int.bmod, Nat.reducePow]
  omega

theorem advance_cut {n : Nat} (h : 2 ^ 31 ≤ pos + n) (hpos : pos < 2 ^ 31) (hn : n < 2 ^ 31) :
    advance pos n < 0 ∧ -2 ^ 31 ≤ advance pos n := by
  simp only [advance, Int.bmod, Nat.reducePow]
  omega

theorem toLoad_of_le (h : left ≤ slice.rows) : toLoad slice left = left := by
  rw [toLoad_eq_min, Nat.min_eq_right h]

theorem toLoad_of_lt (h : slice.rows < left) : toLoad slice left = slice.rows := by
  rw [toLoad_eq_min, Nat.min_eq_left (Nat.le_of_lt h)]

theorem lastSlice_of_le (h : left ≤ slice.rows) : lastSlice slice left = 0 := by
  have := slice.pos
  exact Nat.div_eq_of_lt (by omega)

theorem lastSlice_of_lt (h : slice.rows < left) :
    lastSlice slice left = lastSlice slice (left - slice.rows) + 1 := by
  have hpred : left - 1 = left - slice.rows - 1 + slice.rows := by omega
  rw [lastSlice, hpred, Nat.add_div_right _ slice.pos]
  rfl

theorem lastPos_of_le (h : left ≤ slice.rows) : lastPos slice pos left = pos := by
  rw [lastPos, lastSlice_of_le h, Nat.zero_mul, Nat.add_zero]

theorem lastPos_of_lt (h : slice.rows < left) :
    lastPos slice pos left = lastPos slice (pos + slice.rows) (left - slice.rows) := by
  rw [lastPos, lastPos, lastSlice_of_lt h, Nat.succ_mul]
  omega

variable {dim cnt : Nat} {repo res : Block UInt8} {f : List UInt8}

theorem loadSlices_zero (dim : Nat) (repo : Block UInt8) (f : List UInt8) (pos : Int) (cnt : Nat) :
    loadSlices dim slice repo f pos cnt 0 = some repo := by
  rw [loadSlices, if_neg (Nat.lt_irrefl 0)]

/-- **One turn**, at a position that was not cut off. -/
theorem loadSlices_turn (hleft : 0 < left) (hpos : pos < 2 ^ 31)
    (hf : f.length = sizeofFloat * dim * left) (hfits : f.length < 2 ^ 63) :
    loadSlices dim slice repo f pos cnt left =
      (repo.store (16 * pos) (f.take (sizeofFloat * dim * toLoad slice left))).bind fun repo =>
        if cnt + 1 < 2 ^ 31 then
          loadSlices dim slice repo (f.drop (sizeofFloat * dim * toLoad slice left))
            (advance pos (toLoad slice left)) (cnt + 1) (left - toLoad slice left)
        else none := by
  have hle : toLoad slice left ≤ left := by
    rw [toLoad_eq_min]
    exact Nat.min_le_right _ _
  have hn : sizeofFloat * dim * toLoad slice left % 2 ^ 64 =
      sizeofFloat * dim * toLoad slice left := by
    have := Nat.mul_le_mul_left (sizeofFloat * dim) hle
    exact Nat.mod_eq_of_lt (by omega)
  rw [loadSlices, if_pos hleft, sliceOffset_natCast hpos]
  simp only [hn]
  cases repo.store (16 * pos) (f.take (sizeofFloat * dim * toLoad slice left)) <;> rfl

/-- At a position that was cut off nothing can be loaded. -/
theorem loadSlices_cut {pos : Int} (hneg : pos < 0) (hmin : -2 ^ 31 ≤ pos) (hleft : 0 < left)
    (hrepo : repo.length < 2 ^ 63) : loadSlices dim slice repo f pos cnt left = none := by
  have hcut := sliceOffset_cut hneg hmin
  have hnone : ∀ xs, repo.store (sliceOffset pos) xs = none := fun xs => if_neg (by omega)
  rw [loadSlices, if_pos hleft]
  simp only [hnone]

/-- A turn with a result. -/
theorem turn_of_some (pos : Nat) (h : loadSlices dim slice repo f pos cnt left = some res)
    (hleft : 0 < left) (hpos : pos < 2 ^ 31) (hf : f.length = sizeofFloat * dim * left)
    (hfits : f.length < 2 ^ 63) (hrepo : repo.length < 2 ^ 63) :
    ∃ repo', repo.store (16 * pos) (f.take (sizeofFloat * dim * toLoad slice left)) = some repo' ∧
      cnt + 1 < 2 ^ 31 ∧ (left ≤ slice.rows ∧ res = repo' ∨
        slice.rows < left ∧ pos + slice.rows < 2 ^ 31 ∧
        loadSlices dim slice repo' (f.drop (sizeofFloat * dim * slice.rows))
          (pos + slice.rows : Nat) (cnt + 1) (left - slice.rows) = some res) := by
  rw [loadSlices_turn hleft hpos hf hfits] at h
  obtain ⟨repo', hstore, h⟩ := Option.bind_eq_some_iff.mp h
  have hlen := Block.length_store hstore
  split at h
  · rename_i hcnt
    refine ⟨repo', hstore, hcnt, ?_⟩
    rcases Nat.lt_or_ge slice.rows left with hlt | hle
    · rw [toLoad_of_lt hlt] at h
      have hrest : 0 < left - slice.rows := Nat.sub_pos_of_lt hlt
      by_cases hnext : pos + slice.rows < 2 ^ 31
      · rw [advance_natCast hnext] at h
        exact .inr ⟨hlt, hnext, h⟩
      · obtain ⟨hneg, hmin⟩ := advance_cut (Nat.le_of_not_lt hnext) hpos slice.rows_lt
        rw [loadSlices_cut hneg hmin hrest (by omega)] at h
        cases h
    · rw [toLoad_of_le hle, Nat.sub_self, loadSlices_zero] at h
      cases h
      exact .inl ⟨hle, rfl⟩
  · cases h

theorem length_rest {c rows : Nat} (hf : f.length = c * left) :
    (f.drop (c * rows)).length = c * (left - rows) := by
  rw [List.length_drop, hf, Nat.mul_sub]

theorem length_rest_lt {n : Nat} (hfits : f.length < 2 ^ 63) : (f.drop n).length < 2 ^ 63 := by
  rw [List.length_drop]
  omega

end Turns

/-! ## The whole loop -/

section Loop

variable {slice : Slice} {dim : Nat}

/-- Where the loop has a result the last slice is in the range of the counters and of the array. -/
theorem loadSlices_bounds : ∀ {left : Nat} (pos : Nat) {cnt : Nat} {repo res : Block UInt8}
    {f : List UInt8},
    loadSlices dim slice repo f pos cnt left = some res → 0 < left → pos < 2 ^ 31 →
    f.length = sizeofFloat * dim * left → f.length < 2 ^ 63 → repo.length < 2 ^ 63 →
    lastPos slice pos left < 2 ^ 31 ∧ cnt + lastSlice slice left + 1 < 2 ^ 31 ∧
      16 * lastPos slice pos left + sizeofFloat * dim * (left - lastSlice slice left * slice.rows) ≤
        repo.length := by
  intro left
  induction left using Nat.strong_induction_on with
  | _ left ih =>
    intro pos cnt repo res f h hleft hpos hf hfits hrepo
    obtain ⟨repo', hstore, hcnt, hturn⟩ := turn_of_some pos h hleft hpos hf hfits hrepo
    obtain ⟨hstored, -⟩ := Block.store_eq_some_iff.mp hstore
    have hlen := Block.length_store hstore
    rcases hturn with ⟨hle, -⟩ | ⟨hlt, hnext, hrest⟩
    · rw [lastPos_of_le hle, lastSlice_of_le hle, Nat.zero_mul, Nat.sub_zero]
      rw [toLoad_of_le hle, ← hf, List.take_length, hf] at hstored
      exact ⟨hpos, hcnt, hstored⟩
    · obtain ⟨hlast, hcount, hend⟩ := ih (left - slice.rows) (Nat.sub_lt hleft slice.pos) _ hrest
        (Nat.sub_pos_of_lt hlt) hnext (length_rest hf) (length_rest_lt hfits) (hlen ▸ hrepo)
      have hsub : left - (lastSlice slice (left - slice.rows) + 1) * slice.rows =
          left - slice.rows - lastSlice slice (left - slice.rows) * slice.rows := by
        rw [Nat.succ_mul]
        omega
      rw [lastPos_of_lt hlt, lastSlice_of_lt hlt, hsub]
      exact ⟨hlast, by omega, hlen ▸ hend⟩

/-- With vectors of four floats and more the loop leaves the end of the array alone that lies behind
what it is to load. -/
theorem loadSlices_behind : ∀ {left : Nat} (pos : Nat) {cnt : Nat} {repo res : Block UInt8}
    {f : List UInt8},
    loadSlices dim slice repo f pos cnt left = some res → pos < 2 ^ 31 →
    f.length = sizeofFloat * dim * left → f.length < 2 ^ 63 → repo.length < 2 ^ 63 → 4 ≤ dim →
    ∀ {j : Nat}, 16 * pos + sizeofFloat * dim * left ≤ j → res[j]? = repo[j]? := by
  intro left
  induction left using Nat.strong_induction_on with
  | _ left ih =>
    intro pos cnt repo res f h hpos hf hfits hrepo hdim j hj
    rcases Nat.eq_zero_or_pos left with rfl | hleft
    · rw [loadSlices_zero] at h
      cases h
      rfl
    · obtain ⟨repo', hstore, -, hturn⟩ := turn_of_some pos h hleft hpos hf hfits hrepo
      have hlen := Block.length_store hstore
      have htake : (f.take (sizeofFloat * dim * toLoad slice left)).length ≤ f.length :=
        List.length_take_le' _ _
      have hfirst : repo'[j]? = repo[j]? := Block.getElem?_store hstore (by omega)
      rcases hturn with ⟨-, rfl⟩ | ⟨hlt, hnext, hrest⟩
      · exact hfirst
      · have hsplit : sizeofFloat * dim * left =
            sizeofFloat * dim * slice.rows + sizeofFloat * dim * (left - slice.rows) := by
          rw [← Nat.mul_add, Nat.add_sub_cancel' (Nat.le_of_lt hlt)]
        have hwide : 16 * slice.rows ≤ sizeofFloat * dim * slice.rows :=
          Nat.mul_le_mul_right _ (Nat.mul_le_mul_left sizeofFloat hdim)
        rw [← hfirst]
        exact ih (left - slice.rows) (Nat.sub_lt hleft slice.pos) _ hrest hnext (length_rest hf)
          (length_rest_lt hfits) (hlen ▸ hrepo) hdim (by omega)

/-- **What the loop fills**, in place of what was yet to come. -/
theorem loadSlices_fill : ∀ {left : Nat} (pos cnt : Nat) (written : List UInt8) {f : List UInt8},
    f.length = sizeofFloat * dim * left → f.length < 2 ^ 63 → written.length = 16 * pos →
    left ≤ slice.rows ∨ dim = 4 → lastPos slice pos left < 2 ^ 31 →
    cnt + lastSlice slice left + 1 < 2 ^ 31 →
    loadSlices dim slice (written.map some ++ .new f.length) f pos cnt left =
      some ((written ++ f).map some) := by
  intro left
  induction left using Nat.strong_induction_on with
  | _ left ih =>
    intro pos cnt written f hf hfits hwritten hdim hlast hcount
    have hpos : pos < 2 ^ 31 := Nat.lt_of_le_of_lt (Nat.le_add_right _ _) hlast
    rcases Nat.eq_zero_or_pos left with rfl | hleft
    · have hnil : f = [] := List.eq_nil_of_length_eq_zero hf
      rw [loadSlices_zero, hnil, List.append_nil, List.length_nil]
      exact congrArg some (List.append_nil _)
    · have htake : (f.take (sizeofFloat * dim * toLoad slice left)).length ≤ f.length :=
        List.length_take_le' _ _
      rw [loadSlices_turn hleft hpos hf hfits, ← hwritten, Block.store_fresh htake,
        Option.bind_some, if_pos (by omega)]
      rcases Nat.lt_or_ge slice.rows left with hlt | hle
      · obtain rfl : dim = 4 := hdim.resolve_left (Nat.not_le_of_lt hlt)
        rw [lastPos_of_lt hlt] at hlast
        rw [lastSlice_of_lt hlt] at hcount
        have hnext : pos + slice.rows < 2 ^ 31 := Nat.lt_of_le_of_lt (Nat.le_add_right _ _) hlast
        have hpiece : (f.take (sizeofFloat * 4 * slice.rows)).length = 16 * slice.rows := by
          rw [List.length_take, hf, Nat.min_eq_left (Nat.mul_le_mul_left _ (Nat.le_of_lt hlt))]
          rfl
        have hrest : f.length - (f.take (sizeofFloat * 4 * slice.rows)).length =
            (f.drop (sizeofFloat * 4 * slice.rows)).length := by
          rw [hpiece, List.length_drop]
          rfl
        rw [toLoad_of_lt hlt, advance_natCast hnext, hrest]
        have hlater := ih (left - slice.rows) (Nat.sub_lt hleft slice.pos) (pos + slice.rows)
          (cnt + 1) (written ++ f.take (sizeofFloat * 4 * slice.rows)) (length_rest hf)
          (length_rest_lt hfits) (by rw [List.length_append, hwritten, hpiece, Nat.mul_add])
          (.inr rfl) hlast (by omega)
        rw [hlater, List.append_assoc, List.take_append_drop]
      · rw [toLoad_of_le hle, Nat.sub_self, loadSlices_zero, ← hf, List.take_length, Nat.sub_self]
        exact congrArg some (List.append_nil _)

end Loop

/-- With more than one slice and less than four floats the last slice is behind the array. -/
theorem four_le_dim_of_load {slice : Slice} {d : Dump} (hlt : slice.rows < d.size)
    {res : Block UInt8} (h : loadSlices d.dim slice (.new d.repo.length) d.repo 0 0 d.size = some res) :
    4 ≤ d.dim := by
  have hf := d.length_eq
  have hnew : (Block.new d.repo.length : Block UInt8).length = d.repo.length :=
    Block.length_new _
  have hsize : 0 < d.size := Nat.lt_of_le_of_lt (Nat.zero_le _) hlt
  obtain ⟨-, -, hend⟩ := loadSlices_bounds 0 h hsize (by decide) hf d.repo_fits
    (hnew.symm ▸ d.repo_fits)
  have hlast : 0 < lastPos slice 0 d.size := by
    rw [lastPos_of_lt hlt, Nat.zero_add]
    exact Nat.lt_of_lt_of_le slice.pos (Nat.le_add_right _ _)
  have hle : lastPos slice 0 d.size ≤ d.size := by
    rw [lastPos, Nat.zero_add]
    exact Nat.le_trans (Nat.div_mul_le_self _ _) (Nat.sub_le _ _)
  have hpos : lastSlice slice d.size * slice.rows = lastPos slice 0 d.size :=
    (Nat.zero_add _).symm
  rw [hpos, hnew, hf, Nat.mul_sub] at hend
  have hmul := Nat.mul_le_mul_left (sizeofFloat * d.dim) hle
  have hfour : 16 * lastPos slice 0 d.size ≤
      sizeofFloat * d.dim * lastPos slice 0 d.size := by omega
  have hfloats : sizeofFloat * 4 ≤ sizeofFloat * d.dim :=
    Nat.le_of_mul_le_mul_right hfour hlast
  exact Nat.le_of_mul_le_mul_left hfloats (by decide)

/-- With more than one slice and more than four floats the last byte is never loaded. -/
theorem last_of_load {slice : Slice} {d : Dump} (hlt : slice.rows < d.size) (hwide : 5 ≤ d.dim)
    {res : Block UInt8} (h : loadSlices d.dim slice (.new d.repo.length) d.repo 0 0 d.size = some res) :
    res[d.repo.length - 1]? = some none := by
  have hf := d.length_eq
  have hnew : (Block.new d.repo.length : Block UInt8).length = d.repo.length :=
    Block.length_new _
  have hsize : 0 < d.size := Nat.lt_of_le_of_lt (Nat.zero_le _) hlt
  obtain ⟨repo', hstore, -, ⟨hle, -⟩ | ⟨-, hnext, hrest⟩⟩ :=
    turn_of_some 0 h hsize (by decide) hf d.repo_fits (hnew.symm ▸ d.repo_fits)
  · exact absurd hle (Nat.not_le_of_lt hlt)
  · -- The last byte is behind the first slice, and behind all that is loaded after it.
    have hlen := Block.length_store hstore
    have hsplit : sizeofFloat * d.dim * d.size =
        sizeofFloat * d.dim * slice.rows + sizeofFloat * d.dim * (d.size - slice.rows) := by
      rw [← Nat.mul_add, Nat.add_sub_cancel' (Nat.le_of_lt hlt)]
    have hrows := slice.pos
    have hmore : 20 * slice.rows ≤ sizeofFloat * d.dim * slice.rows :=
      Nat.mul_le_mul_right _ (Nat.mul_le_mul_left sizeofFloat hwide)
    have hleft : 1 ≤ sizeofFloat * d.dim * (d.size - slice.rows) :=
      Nat.mul_pos (Nat.mul_pos (by decide) (Nat.lt_of_lt_of_le (by decide) hwide))
        (Nat.sub_pos_of_lt hlt)
    have htake : (d.repo.take (sizeofFloat * d.dim * toLoad slice d.size)).length ≤
        sizeofFloat * d.dim * slice.rows := by
      rw [toLoad_of_lt hlt]
      exact List.length_take_le _ _
    have hfirst := Block.getElem?_store (j := d.repo.length - 1) hstore (by omega)
    have hlater := loadSlices_behind (j := d.repo.length - 1) (0 + slice.rows) hrest hnext
      (length_rest hf) (length_rest_lt d.repo_fits) (by rw [hlen, hnew]; exact d.repo_fits)
      (Nat.le_of_succ_le hwide) (by omega)
    rw [hlater, hfirst, Block.new, List.getElem?_replicate_of_lt (by omega)]

/-- With more than one slice a result that is the whole array has vectors of four floats. -/
theorem dim_eq_of_load {slice : Slice} {d : Dump} (hlt : slice.rows < d.size)
    (h : loadSlices d.dim slice (.new d.repo.length) d.repo 0 0 d.size =
      some (d.repo.map some)) : d.dim = 4 := by
  have hnarrow := four_le_dim_of_load hlt h
  by_contra hne
  have hlast := last_of_load hlt (Nat.lt_of_le_of_ne hnarrow (Ne.symm hne)) h
  rw [List.getElem?_map] at hlast
  obtain ⟨byte, -, hbyte⟩ := Option.map_eq_some_iff.mp hlast
  cases hbyte

/-- **Loading by slices is loading as a whole** exactly if there is one slice, or four floats in a
vector and few enough rows.

A slice is put behind the rows before it, of which there are `pos`. To make a number of floats of
this the source takes the size of a float, which is four, and not the dimension. With other
dimensions slices overlap, or leave holes between them. And `pos` and the number of slices are
`int`s. -/
theorem load_dump_iff (slice : Slice) (d : Dump) :
    load slice (dump d) = some (d.repo.map some) ↔ SlicesFit slice d := by
  have hf := d.length_eq
  have hnew : (Block.new d.repo.length : Block UInt8).length = d.repo.length :=
    Block.length_new _
  rw [load_dump]
  constructor
  · intro h
    rcases Nat.lt_or_ge slice.rows d.size with hlt | hle
    · have hsize : 0 < d.size := Nat.lt_of_le_of_lt (Nat.zero_le _) hlt
      obtain ⟨hlast, hcount, -⟩ := loadSlices_bounds 0 h hsize (by decide) hf d.repo_fits
        (hnew.symm ▸ d.repo_fits)
      exact .inr ⟨dim_eq_of_load hlt h, hlast, by omega⟩
    · exact .inl hle
  · intro h
    have hrange : lastPos slice 0 d.size < 2 ^ 31 ∧ 0 + lastSlice slice d.size + 1 < 2 ^ 31 := by
      rcases h with hle | ⟨-, hlast, hcount⟩
      · rw [lastPos_of_le hle, lastSlice_of_le hle]
        decide
      · exact ⟨hlast, by omega⟩
    exact loadSlices_fill 0 0 [] hf d.repo_fits rfl (h.imp_right And.left) hrange.1 hrange.2

/-- Two vectors of eight floats, loaded one by one. -/
def eightFloats : Dump where
  dim := 8
  size := 2
  repo := List.replicate 64 0
  one_le_dim := by decide
  dim_lt := by decide
  size_lt := by decide
  length_repo := rfl
  repo_fits := by decide

def oneRow : Slice := ⟨1, by decide, by decide⟩

theorem not_load_dump_eightFloats :
    load oneRow (dump eightFloats) ≠ some (eightFloats.repo.map some) := by
  intro h
  rw [load_dump] at h
  exact absurd (dim_eq_of_load (by decide) h) (by decide)

end CxxLab.JustLab
