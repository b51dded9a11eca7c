import CxxLab.RocksdbLab.Readers
import Std.Data.ExtTreeSet
import Mathlib.Algebra.Ring.Int.Defs

/-!
# `RocksDBImpl::GetDocs` — range queries on the index

A filter names a field and two bounds. `GetDocs` turns the bounds into keys of the index, with the
address 0 behind them, and takes the locations off the keys between the two. Whether these are the
locations of the values between the bounds is a question of how the bytes of values are ordered:

* *Strings* have different lengths and nothing marks their end. It is enough that no string has a
  zero byte and that segments are below `2 ^ 56`: then what follows a string begins with a zero, and
  a string that ends early is the smaller one (`getDocs_string`).
* *Longs* are in two's complement, most significant byte first, so that the negative ones come behind
  all the others. Between bounds of one sign that makes no difference. Between bounds of different
  signs it is wrong, unless nothing is stored there (`getDocs_long_iff`).
-/

set_option autoImplicit false

namespace CxxLab.RocksdbLab

open Std CxxLab.Lib

/-! ## The query -/

/-- `FieldFilter`. -/
structure FieldFilter where
  upperBound : Bytes
  lowerBound : Bytes
  name : Bytes
  number : Nat := 2 ^ 64 - 1
  deriving DecidableEq

/-- The key `GetDocs` makes of a bound. -/
def boundKey (tid : UInt64) (fid : UInt8) (bound : Bytes) : Bytes :=
  fieldIndexPrefix ++ serialize tid ++ [fid] ++ bound ++ serialize 0 ++ serialize 0

/-- The loop over the keys between the bounds, which ends after `number` of them. -/
def filterLocations (db : Store) (tid : UInt64) (fid : UInt8) (f : FieldFilter) : List Bytes :=
  ((db.scan (boundKey tid fid f.lowerBound) (some (boundKey tid fid f.upperBound))).take
    f.number).map fun kv => getDocsLocation kv.1 ++ [fid]

/-- The loop over the filters. -/
def collectLocations (db : Store) (tid : UInt64) (schema : DocSchema) :
    List FieldFilter → ExtTreeSet Bytes → Except Status (ExtTreeSet Bytes)
  | [], filtered => .ok filtered
  | f :: filter, filtered =>
    match schema.getFieldId f.name with
    | none => .error .invalidArgument
    | some fid =>
      collectLocations db tid schema filter (filtered.insertMany (filterLocations db tid fid f))

/-- The loop over the locations. What it reads there is the value of the field the filter is
about, and it takes that for the uid. -/
def loadDoc (db : Store) (tid : UInt64) (schema : DocSchema) (location : Bytes) : Option Doc := do
  let uid ← db[fieldValuePrefix ++ serialize tid ++ location]?
  let luid ← deserialize uid
  return Doc.new luid.toInt64 schema

/-- `DBCache::GetSchema(tid)`. -/
def DBCache.getSchemaByTid (c : DBCache) (tid : UInt64) : Option DocSchema :=
  c.getSchema (c.tidnamemap.getD tid [])

/-- `RocksDBImpl::GetDocs`: the documents it pushes, in this order. There is no result where it
follows the null pointer it has for a table without a schema, or where an assertion fails. -/
def RocksDBImpl.getDocs (impl : RocksDBImpl) (tableName : Bytes) (filter : List FieldFilter) :
    Option (Except Status (List Doc)) :=
  match impl.cache.getTidByTname tableName with
  | none => some (.error .notFound)
  | some tid =>
    match impl.cache.getSchemaByTid tid with
    | none => if filter = [] then some (.ok []) else none
    | some schema =>
      match collectLocations impl.db tid schema filter ∅ with
      | .error s => some (.error s)
      | .ok filtered => (filtered.toList.mapM (loadDoc impl.db tid schema)).map .ok

/-! ## What is collected -/

/-- **The index of a table is that of its values**: its keys are those of the values, and no
others. -/
def IndexedBy (S : Store) (tid : UInt64) : Prop :=
  ∀ key, fieldIndexPrefix ++ serialize tid <+: key →
    (key ∈ S ↔ ∃ fid v s o, key = (Key.fieldIndex tid fid v s o).encode ∧
      S.read (.fieldValue tid s o fid) = some v)

/-- The locations in `filtered` are those of the values of a field that meet `P`. -/
def CollectsExactly (filtered : ExtTreeSet Bytes) (S : Store) (tid : UInt64) (fid : UInt8)
    (P : Bytes → Prop) : Prop :=
  ∀ location, location ∈ filtered ↔ ∃ s o v, location = addr s o ++ [fid] ∧
    S.read (.fieldValue tid s o fid) = some v ∧ P v

theorem boundKey_eq (tid : UInt64) (fid : UInt8) (bound : Bytes) :
    boundKey tid fid bound = fieldIndexKey tid fid bound (addr 0 0) := by
  rw [boundKey, fieldIndexKey, addr, List.append_assoc _ (serialize 0)]

theorem compare_fieldIndexKey (tid : UInt64) (fid : UInt8) (v w a b : Bytes) :
    compare (fieldIndexKey tid fid v a) (fieldIndexKey tid fid w b) = compare (v ++ a) (w ++ b) := by
  rw [fieldIndexKey, fieldIndexKey, List.append_assoc _ v, List.append_assoc _ w, compare_append_left]

/-- The key of a value in the index lies between those of the bounds of a filter, which have the address 0
behind them. -/
def Between (f : FieldFilter) (v : Bytes) (s o : UInt64) : Prop :=
  (compare (f.lowerBound ++ addr 0 0) (v ++ addr s o)).isLE = true ∧
    compare (v ++ addr s o) (f.upperBound ++ addr 0 0) = .lt

/-- **What the loop over the keys comes to**, if it does not end early: the index records of the values of the
field whose keys lie between those of the bounds. -/
theorem mem_scan_index {S : Store} {tid : UInt64} {fid : UInt8} {f : FieldFilter}
    (hindex : IndexedBy S tid) {key val : Bytes} :
    (key, val) ∈ S.scan (boundKey tid fid f.lowerBound) (some (boundKey tid fid f.upperBound)) ↔
      S[key]? = some val ∧ ∃ s o v, key = (Key.fieldIndex tid fid v s o).encode ∧
        S.read (.fieldValue tid s o fid) = some v ∧ Between f v s o := by
  rw [KVStore.mem_scan, boundKey_eq, boundKey_eq]
  refine and_congr_right fun hkey => ⟨?_, ?_⟩
  · rintro ⟨hlow, hhigh⟩
    have hhigh := hhigh _ rfl
    have hbegins : fieldIndexPrefix ++ serialize tid <+: fieldIndexPrefix ++ serialize tid ++ [fid] :=
      List.prefix_append _ _
    have hbegin : fieldIndexPrefix ++ serialize tid ++ [fid] <+: key := by
      refine isPrefix_of_between (a := f.lowerBound ++ addr 0 0) (b := f.upperBound ++ addr 0 0) ?_ ?_
      · rwa [← List.append_assoc]
      · rwa [← List.append_assoc]
    have hin : key ∈ S := mem_iff_exists.mpr ⟨_, hkey⟩
    obtain ⟨fid', v, s, o, rfl, hread⟩ := (hindex key (hbegins.trans hbegin)).mp hin
    obtain rfl : fid' = fid := by
      have hsame : fieldIndexPrefix ++ serialize tid ++ [fid'] <+:
          (Key.fieldIndex tid fid' v s o).encode := by
        rw [Key.encode, fieldIndexKey, List.append_assoc _ v]
        exact List.prefix_append _ _
      have heq := List.prefix_of_prefix_length_le hsame hbegin (by simp)
      have := heq.eq_of_length (by simp)
      simpa using this
    rw [Key.encode, compare_fieldIndexKey] at hlow hhigh
    exact ⟨s, o, v, rfl, hread, hlow, hhigh⟩
  · rintro ⟨s, o, v, rfl, -, hlow, hhigh⟩
    refine ⟨?_, ?_⟩
    · rwa [Key.encode, compare_fieldIndexKey]
    · rintro u ⟨⟩
      rwa [Key.encode, compare_fieldIndexKey]

/-- The addresses of the values between the bounds, in the order of their index records. -/
def candidates (S : Store) (tid : UInt64) (fid : UInt8) (f : FieldFilter) : List Bytes :=
  (S.scan (boundKey tid fid f.lowerBound) (some (boundKey tid fid f.upperBound))).map fun kv =>
    getDocsLocation kv.1

theorem filterLocations_eq (S : Store) (tid : UInt64) (fid : UInt8) (f : FieldFilter) :
    filterLocations S tid fid f = ((candidates S tid fid f).take f.number).map (· ++ [fid]) := by
  rw [filterLocations, candidates, ← List.map_take, List.map_map]
  rfl

theorem mem_candidates {S : Store} {tid : UInt64} {fid : UInt8} {f : FieldFilter}
    (hindex : IndexedBy S tid) {a : Bytes} : a ∈ candidates S tid fid f ↔
      ∃ s o v, a = addr s o ∧ S.read (.fieldValue tid s o fid) = some v ∧ Between f v s o := by
  rw [candidates, List.mem_map]
  constructor
  · rintro ⟨⟨key, val⟩, hmem, rfl⟩
    obtain ⟨-, s, o, v, rfl, hread, hbetween⟩ := (mem_scan_index hindex).mp hmem
    exact ⟨s, o, v, (readBack_fieldIndex tid fid v s o).2, hread, hbetween⟩
  · rintro ⟨s, o, v, rfl, hread, hbetween⟩
    have hbegin : fieldIndexPrefix ++ serialize tid <+: (Key.fieldIndex tid fid v s o).encode := by
      rw [Key.encode, fieldIndexKey, List.append_assoc, List.append_assoc _ [fid]]
      exact List.prefix_append _ _
    obtain ⟨val, hval⟩ := mem_iff_exists.mp ((hindex _ hbegin).mpr ⟨fid, v, s, o, rfl, hread⟩)
    exact ⟨(_, val), (mem_scan_index hindex).mpr ⟨hval, s, o, v, rfl, hread, hbetween⟩,
      (readBack_fieldIndex tid fid v s o).2⟩

/-- Each address has one value of the field, and so comes once. -/
theorem nodup_candidates {S : Store} {tid : UInt64} {fid : UInt8} {f : FieldFilter}
    (hindex : IndexedBy S tid) : (candidates S tid fid f).Nodup := by
  refine List.pairwise_map.mpr ((KVStore.scan_sorted _ _ _).imp_of_mem ?_)
  rintro ⟨key, val⟩ ⟨key', val'⟩ hmem hmem' hlt heq
  obtain ⟨-, s, o, v, rfl, hread, -⟩ := (mem_scan_index hindex).mp hmem
  obtain ⟨-, s', o', v', rfl, hread', -⟩ := (mem_scan_index hindex).mp hmem'
  have haddr : addr s o = addr s' o' := by
    rw [← (readBack_fieldIndex tid fid v s o).2, ← (readBack_fieldIndex tid fid v' s' o').2]
    exact heq
  obtain ⟨rfl, rfl⟩ := addr_inj.mp haddr
  cases hread.symm.trans hread'
  rw [Std.compare_self] at hlt
  cases hlt

theorem length_candidates_le (S : Store) (tid : UInt64) (fid : UInt8) (f : FieldFilter) :
    (candidates S tid fid f).length ≤ S.size := by
  rw [candidates, List.length_map]
  refine Nat.le_trans (List.length_filter_le _ _) ?_
  rw [ExtTreeMap.length_toList]

/-- **One filter collects** the locations of the values that are, with their address, between the
bounds with the address 0. -/
theorem mem_filterLocations {S : Store} {tid : UInt64} {fid : UInt8} {f : FieldFilter}
    (hindex : IndexedBy S tid) (hnumber : S.size ≤ f.number) {location : Bytes} :
    location ∈ filterLocations S tid fid f ↔ ∃ s o v, location = addr s o ++ [fid] ∧
      S.read (.fieldValue tid s o fid) = some v ∧ Between f v s o := by
  rw [filterLocations_eq, List.take_of_length_le (Nat.le_trans (length_candidates_le S tid fid f) hnumber),
    List.mem_map]
  constructor
  · rintro ⟨a, ha, rfl⟩
    obtain ⟨s, o, v, rfl, hvalue⟩ := (mem_candidates hindex).mp ha
    exact ⟨s, o, v, rfl, hvalue⟩
  · rintro ⟨s, o, v, rfl, hvalue⟩
    exact ⟨_, (mem_candidates hindex).mpr ⟨s, o, v, rfl, hvalue⟩, rfl⟩

/-- The locations of a single filter. -/
theorem collectsExactly_single {S : Store} {tid : UInt64} {schema : DocSchema} {fid : UInt8}
    {f : FieldFilter} (hfid : schema.getFieldId f.name = some fid) (hindex : IndexedBy S tid)
    (hnumber : S.size ≤ f.number) {P : Bytes → Prop} :
    ∃ filtered, collectLocations S tid schema [f] ∅ = .ok filtered ∧
      (CollectsExactly filtered S tid fid P ↔
        ∀ s o v, S.read (.fieldValue tid s o fid) = some v → (Between f v s o ↔ P v)) := by
  refine ⟨_, by rw [collectLocations, hfid]; rfl, ?_⟩
  have hmem : ∀ location,
      location ∈ (∅ : ExtTreeSet Bytes).insertMany (filterLocations S tid fid f) ↔
        location ∈ filterLocations S tid fid f := by
    intro location
    rw [ExtTreeSet.mem_insertMany_list]
    simp
  constructor
  · intro hexact s o v hread
    have hat := hexact (addr s o ++ [fid])
    rw [hmem, mem_filterLocations hindex hnumber] at hat
    constructor
    · intro hbetween
      obtain ⟨s', o', v', hloc, hread', hP⟩ := hat.mp ⟨s, o, v, rfl, hread, hbetween⟩
      obtain ⟨rfl, rfl⟩ := addr_inj.mp (List.append_cancel_right hloc)
      cases hread.symm.trans hread'
      exact hP
    · intro hP
      obtain ⟨s', o', v', hloc, hread', hbetween⟩ := hat.mpr ⟨s, o, v, rfl, hread, hP⟩
      obtain ⟨rfl, rfl⟩ := addr_inj.mp (List.append_cancel_right hloc)
      cases hread.symm.trans hread'
      exact hbetween
  · intro h location
    rw [hmem, mem_filterLocations hindex hnumber]
    refine exists_congr fun s => exists_congr fun o => exists_congr fun v => ?_
    refine and_congr_right fun _ => and_congr_right fun hread => h s o v hread

/-- A value comes to a store, and its index record. -/
def addValue (S : Store) (tid s o : UInt64) (fid : UInt8) (v : Bytes) : Store :=
  S.apply [.put (Key.fieldValue tid s o fid).encode v, .put (Key.fieldIndex tid fid v s o).encode []]

section AddValue

variable {S : Store} {tid s o : UInt64} {fid : UInt8} {v : Bytes}

theorem read_addValue (s' o' : UInt64) (fid' : UInt8) :
    (addValue S tid s o fid v).read (.fieldValue tid s' o' fid') =
      if s' = s ∧ o' = o ∧ fid' = fid then some v else S.read (.fieldValue tid s' o' fid') := by
  rw [addValue, KVStore.apply_cons, KVStore.apply_cons, KVStore.apply_nil, Store.read_put,
    Store.read_put, if_neg (by simp)]
  exact if_congr (by rw [Key.fieldValue.injEq, eq_self, true_and]) rfl rfl

/-- The index stays that of the values. -/
theorem IndexedBy.addValue (h : IndexedBy S tid) (hnew : S.read (.fieldValue tid s o fid) = none) :
    IndexedBy (addValue S tid s o fid v) tid := by
  intro key hbegin
  have hmem : key ∈ RocksdbLab.addValue S tid s o fid v ↔
      key = (Key.fieldIndex tid fid v s o).encode ∨ key = (Key.fieldValue tid s o fid).encode ∨ key ∈ S := by
    rw [RocksdbLab.addValue, KVStore.apply_cons, KVStore.apply_cons, KVStore.apply_nil,
      ExtTreeMap.mem_iff_isSome_getElem?, KVStore.getElem?_put, KVStore.getElem?_put, ExtTreeMap.mem_iff_isSome_getElem?]
    split
    · simp [*]
    · next hindex => split <;> simp_all
  rw [hmem]
  constructor
  · rintro (rfl | rfl | hold)
    · exact ⟨fid, v, s, o, rfl, by rw [read_addValue, if_pos ⟨rfl, rfl, rfl⟩]⟩
    · -- A key of the values does not begin as those of the index do.
      have hfamily := (Key.take_encode (.fieldValue tid s o fid)).symm
      obtain ⟨rest, hrest⟩ := hbegin
      rw [← hrest] at hfamily
      cases hfamily
    · obtain ⟨fid', w, s', o', rfl, hread⟩ := (h key hbegin).mp hold
      refine ⟨fid', w, s', o', rfl, ?_⟩
      rw [read_addValue, if_neg, hread]
      rintro ⟨rfl, rfl, rfl⟩
      rw [hnew] at hread
      cases hread
  · rintro ⟨fid', w, s', o', rfl, hread⟩
    rw [read_addValue] at hread
    split at hread
    · next hsame =>
      obtain ⟨rfl, rfl, rfl⟩ := hsame
      cases hread
      exact .inl rfl
    · exact .inr (.inr ((h _ hbegin).mpr ⟨fid', w, s', o', rfl, hread⟩))

theorem size_addValue_le : (addValue S tid s o fid v).size ≤ S.size + 2 :=
  Nat.le_trans ExtTreeMap.size_insert_le (Nat.succ_le_succ ExtTreeMap.size_insert_le)

end AddValue

/-- A store of the values of a field. -/
def ofValues (tid : UInt64) (fid : UInt8) : List (UInt64 × UInt64 × Bytes) → Store
  | [] => ∅
  | (s, o, v) :: values => addValue (ofValues tid fid values) tid s o fid v

/-- It has these values and their index, if each has a place of its own. -/
theorem ofValues_spec (tid : UInt64) (fid : UInt8) : ∀ {values : List (UInt64 × UInt64 × Bytes)},
    (values.map fun e => (e.1, e.2.1)).Nodup →
    IndexedBy (ofValues tid fid values) tid ∧ (ofValues tid fid values).size ≤ 2 * values.length ∧
      ∀ s o fid' w, (ofValues tid fid values).read (.fieldValue tid s o fid') = some w ↔
        fid' = fid ∧ (s, o, w) ∈ values := by
  intro values
  induction values with
  | nil =>
    intro _
    refine ⟨fun key _ => ⟨fun h => ?_, ?_⟩, Nat.le_refl _, fun s o fid' w => ?_⟩
    · exact absurd h ExtTreeMap.not_mem_empty
    · rintro ⟨fid', w, s, o, -, hread⟩
      rw [ofValues, Store.read, ExtTreeMap.getElem?_empty] at hread
      cases hread
    · rw [ofValues, Store.read, ExtTreeMap.getElem?_empty]
      simp
  | cons e values ih =>
    obtain ⟨s, o, v⟩ := e
    intro hnodup
    obtain ⟨hnew, hnodup⟩ := List.nodup_cons.mp hnodup
    obtain ⟨hindex, hsize, hread⟩ := ih hnodup
    have hnone : (ofValues tid fid values).read (.fieldValue tid s o fid) = none := by
      refine Option.eq_none_iff_forall_ne_some.mpr fun w hw => hnew ?_
      exact List.mem_map.mpr ⟨_, ((hread s o fid w).mp hw).2, rfl⟩
    refine ⟨hindex.addValue hnone, Nat.le_trans size_addValue_le (Nat.add_le_add_right hsize 2),
      fun s' o' fid' w => ?_⟩
    rw [ofValues, read_addValue, List.mem_cons, Prod.mk.injEq, Prod.mk.injEq]
    split
    · next hsame =>
      obtain ⟨rfl, rfl, rfl⟩ := hsame
      have hnot : (s', o', w) ∉ values := fun hw => hnew (List.mem_map.mpr ⟨_, hw, rfl⟩)
      simp [hnot, eq_comm]
    · next hne =>
      rw [hread]
      refine and_congr_right ?_
      rintro rfl
      refine (or_iff_right ?_).symm
      rintro ⟨rfl, rfl, -⟩
      exact hne ⟨rfl, rfl, rfl⟩

/-! ## Addresses behind values -/

theorem isLE_then {a b : Ordering} (h : b.isLE = true) : (a.then b).isLE = a.isLE := by
  cases a <;> simp_all

theorem then_eq_lt {a b : Ordering} (h : b ≠ .lt) : a.then b = .lt ↔ a = .lt := by
  cases a <;> simp_all

theorem zero_le_bytes : ∀ bs : Bytes, (compare (List.replicate bs.length 0) bs).isLE = true := by
  intro bs
  induction bs with
  | nil => rfl
  | cons b bs ih =>
    rw [List.length_cons, List.replicate_succ, List.compare_cons_cons, isLE_then ih]
    exact Std.isLE_compare.mpr (UInt8.le_iff_toNat_le.mpr (Nat.zero_le _))

theorem not_bytes_lt_zero (bs : Bytes) : compare bs (List.replicate bs.length 0) ≠ .lt := by
  intro h
  have hle := zero_le_bytes bs
  have hswap : compare (List.replicate bs.length 0) bs =
      (compare bs (List.replicate bs.length 0)).swap := OrientedCmp.eq_swap
  rw [hswap, h] at hle
  cases hle

theorem addr_zero : addr 0 0 = List.replicate 16 0 := by decide

/-! ## Strings -/

/-- The first byte of an address in a segment below `2 ^ 56`. -/
theorem addr_eq_cons {s : UInt64} (o : UInt64) (hs : s.toNat < 2 ^ 56) :
    ∃ rest, addr s o = 0 :: rest ∧ rest.length = 15 := by
  refine ⟨BigEndian.toBytes 7 s.toNat ++ serialize o, ?_, by simp⟩
  have hfirst : s.toNat / 256 ^ 7 = 0 := Nat.div_eq_of_lt hs
  rw [addr, serialize, BigEndian.toBytes, List.cons_append, hfirst]
  rfl

theorem compare_zero_of_ne {c : UInt8} (h : c ≠ 0) : compare 0 c = .lt := by
  refine Std.compare_eq_lt.mpr (UInt8.lt_iff_toNat_lt.mpr (Nat.pos_of_ne_zero fun hc => h ?_))
  exact UInt8.toNat_inj.mp hc

/-- **Strings without zero bytes are compared as if nothing followed them.** -/
theorem compare_string {v bound : Bytes} {s : UInt64} (o : UInt64) (hv : 0 ∉ v) (hb : 0 ∉ bound)
    (hs : s.toNat < 2 ^ 56) :
    (compare (bound ++ addr 0 0) (v ++ addr s o)).isLE = (compare bound v).isLE ∧
      (compare (v ++ addr s o) (bound ++ addr 0 0) = .lt ↔ compare v bound = .lt) := by
  obtain ⟨rest, hrest, hlen⟩ := addr_eq_cons o hs
  have hv' : ∀ c ∈ v, compare 0 c = .lt := fun c hc => compare_zero_of_ne fun h => hv (h ▸ hc)
  have hb' : ∀ c ∈ bound, compare 0 c = .lt := fun c hc => compare_zero_of_ne fun h => hb (h ▸ hc)
  have hzero : addr 0 0 = 0 :: List.replicate rest.length 0 := by
    rw [addr_zero, hlen]
    rfl
  rw [hzero, hrest, compare_append_terminated hb' hv', compare_append_terminated hv' hb',
    isLE_then (zero_le_bytes rest), then_eq_lt (not_bytes_lt_zero rest)]
  exact ⟨rfl, Iff.rfl⟩

/-- **Range queries on string fields are exact** where strings have no zero bytes and segments are
below `2 ^ 56`.

In an index key the string is followed by the segment, without a mark between them. The first byte
of a segment below `2 ^ 56` is zero, which is below each byte a string can go on with. So the keys
are in the order of their strings, a prefix first. -/
theorem getDocs_string {S : Store} {tid : UInt64} {schema : DocSchema} {fid : UInt8}
    {f : FieldFilter} (hfid : schema.getFieldId f.name = some fid) (hindex : IndexedBy S tid)
    (hnumber : S.size ≤ f.number) (hlow : 0 ∉ f.lowerBound) (hhigh : 0 ∉ f.upperBound)
    (hvalues : ∀ s o v, S.read (.fieldValue tid s o fid) = some v → 0 ∉ v ∧ s.toNat < 2 ^ 56) :
    ∃ filtered, collectLocations S tid schema [f] ∅ = .ok filtered ∧
      CollectsExactly filtered S tid fid fun v =>
        (compare f.lowerBound v).isLE = true ∧ compare v f.upperBound = .lt := by
  obtain ⟨filtered, hrun, hexact⟩ := collectsExactly_single hfid hindex hnumber
  refine ⟨filtered, hrun, hexact.mpr fun s o v hread => ?_⟩
  obtain ⟨hv, hs⟩ := hvalues s o v hread
  rw [Between, (compare_string o hv hlow hs).1, (compare_string o hv hhigh hs).2]

/-- A table with one string field. -/
def stringSchema : DocSchema := (DocSchema.new.addStringField [110] []).build

/-- Strings of different lengths: `"b"`, `"a"`, `"abc"`, `"B"` and `"ab"`. -/
def someStrings : List (UInt64 × UInt64 × Bytes) :=
  [(0, 0, [98]), (0, 1, [97]), (0, 2, [97, 98, 99]), (1, 0, [66]), (2, 3, [97, 98])]

/-- `"a"`, `"abc"` and `"ab"` lie between `"a"` and `"b"`. -/
theorem getDocs_string_someStrings : ∃ filtered,
    collectLocations (ofValues 1 0 someStrings) 1 stringSchema
      [{ upperBound := [98], lowerBound := [97], name := [110] }] ∅ = .ok filtered ∧
    ∀ location, location ∈ filtered ↔
      location ∈ [addr 0 1 ++ [0], addr 0 2 ++ [0], addr 2 3 ++ [0]] := by
  obtain ⟨hindex, hsize, hread⟩ := @ofValues_spec 1 0 someStrings (by decide)
  have hread : ∀ s o w, (ofValues 1 0 someStrings).read (.fieldValue 1 s o 0) = some w ↔
      (s, o, w) ∈ someStrings := fun s o w => (hread s o 0 w).trans (and_iff_right rfl)
  obtain ⟨filtered, hrun, hexact⟩ := getDocs_string
    (f := { upperBound := [98], lowerBound := [97], name := [110] })
    (show stringSchema.getFieldId [110] = some 0 by decide +kernel) hindex
    (Nat.le_trans hsize (by decide)) (by decide) (by decide) fun s o w hw => by
      have hall : ∀ e ∈ someStrings, 0 ∉ e.2.2 ∧ e.1.toNat < 2 ^ 56 := by decide
      exact hall _ ((hread s o w).mp hw)
  refine ⟨filtered, hrun, fun location => (hexact location).trans ?_⟩
  simp only [hread]
  constructor
  · rintro ⟨s, o, w, rfl, hw, hbetween⟩
    have hall : ∀ e ∈ someStrings, (compare [97] e.2.2).isLE = true ∧ compare e.2.2 [98] = .lt →
        addr e.1 e.2.1 ++ [0] ∈ [addr 0 1 ++ [0], addr 0 2 ++ [0], addr 2 3 ++ [0]] := by
      decide
    exact hall _ hw hbetween
  · intro hmem
    have hall : ∀ l ∈ [addr 0 1 ++ [0], addr 0 2 ++ [0], addr 2 3 ++ [0]], ∃ e ∈ someStrings,
        l = addr e.1 e.2.1 ++ [0] ∧ (compare [97] e.2.2).isLE = true ∧ compare e.2.2 [98] = .lt := by
      decide
    obtain ⟨⟨s, o, w⟩, hw, hloc, hbetween⟩ := hall location hmem
    exact ⟨s, o, w, hloc, hw, hbetween⟩

/-! ## Longs -/

theorem compare_long (x v : UInt64) (s o : UInt64) :
    ((compare (serialize x ++ addr 0 0) (serialize v ++ addr s o)).isLE = true ↔ x ≤ v) ∧
      (compare (serialize v ++ addr s o) (serialize x ++ addr 0 0) = .lt ↔ v < x) := by
  have hzero : addr 0 0 = List.replicate (addr s o).length 0 := by rw [addr_zero, length_addr]
  rw [hzero, compare_append_append (by simp), compare_append_append (by simp), compare_serialize,
    compare_serialize, isLE_then (zero_le_bytes _), then_eq_lt (not_bytes_lt_zero _)]
  exact ⟨Std.isLE_compare, Std.compare_eq_lt⟩

/-- As an unsigned number a negative one is above all the others. -/
theorem toNat_toUInt64 (x : Int64) :
    (x.toUInt64.toNat : Int) = if x.toInt < 0 then x.toInt + 2 ^ 64 else x.toInt := by
  have hnat : x.toUInt64.toNat = x.toBitVec.toNat := rfl
  have hint : x.toInt = x.toBitVec.toInt := rfl
  have hlt := x.toBitVec.isLt
  rw [hnat, hint, BitVec.toInt_eq_toNat_cond]
  split <;> split <;> omega

/-- The value of a long field. -/
def longBytes (v : Int64) : Bytes := serialize v.toUInt64

theorem longBytes_inj {v w : Int64} : longBytes v = longBytes w ↔ v = w := by
  rw [longBytes, longBytes, serialize_inj]
  refine ⟨fun h => ?_, congrArg _⟩
  rw [← v.toInt64_toUInt64, ← w.toInt64_toUInt64, h]

/-- The keys of longs are in the order of the unsigned numbers. -/
theorem between_long {f : FieldFilter} {lo hi : Int64} (hlow : f.lowerBound = longBytes lo)
    (hhigh : f.upperBound = longBytes hi) (v : Int64) (s o : UInt64) :
    Between f (longBytes v) s o ↔ lo.toUInt64 ≤ v.toUInt64 ∧ v.toUInt64 < hi.toUInt64 := by
  rw [Between, hlow, hhigh, longBytes, longBytes, longBytes, (compare_long _ _ s o).1, (compare_long _ _ s o).2]

/-- A value that is on the wrong side: it is between the bounds and comes behind the upper one, or
it is not between them and comes between their keys.

In the first case the lower bound is negative and the upper one is not. Then no key comes between
those of the bounds, and whatever is between them is missed. In the second it is the other way
round, and there is nothing between the bounds, but a great deal between their keys. -/
def Misplaced (lo hi v : Int64) : Prop :=
  (lo < 0 ∧ 0 ≤ hi ∧ lo ≤ v ∧ v < hi) ∨ (hi < 0 ∧ 0 ≤ lo ∧ (lo ≤ v ∨ v < hi))

/-- Where no value is misplaced, the order of the unsigned numbers decides as that of the signed
ones does. -/
theorem unsigned_between_iff (lo hi v : Int64) :
    ((lo.toUInt64 ≤ v.toUInt64 ∧ v.toUInt64 < hi.toUInt64) ↔ (lo ≤ v ∧ v < hi)) ↔
      ¬ Misplaced lo hi v := by
  have hlo := toNat_toUInt64 lo
  have hhi := toNat_toUInt64 hi
  have hv := toNat_toUInt64 v
  have hzero : ∀ x : Int64, x < 0 ↔ x.toInt < 0 := fun x => Int64.lt_iff_toInt_lt
  have hpos : ∀ x : Int64, 0 ≤ x ↔ 0 ≤ x.toInt := fun x => Int64.le_iff_toInt_le
  have hbounds : ∀ x : Int64, -2 ^ 63 ≤ x.toInt ∧ x.toInt < 2 ^ 63 := fun x =>
    ⟨Int64.le_toInt x, Int64.toInt_lt x⟩
  have blo := hbounds lo
  have bhi := hbounds hi
  have bv := hbounds v
  unfold Misplaced
  rw [UInt64.le_iff_toNat_le, UInt64.lt_iff_toNat_lt, Int64.le_iff_toInt_le, Int64.lt_iff_toInt_lt,
    hzero, hzero, hpos, hpos]
  split at hlo <;> split at hhi <;> split at hv <;> omega

/-- What a range query on a long field asks for. -/
def InRange (lo hi : Int64) (w : Bytes) : Prop := ∃ v, w = longBytes v ∧ lo ≤ v ∧ v < hi

theorem inRange_longBytes {lo hi v : Int64} : InRange lo hi (longBytes v) ↔ lo ≤ v ∧ v < hi := by
  constructor
  · rintro ⟨w, hw, h⟩
    rwa [longBytes_inj.mp hw]
  · intro h
    exact ⟨v, rfl, h⟩

/-- **Range queries on long fields are exact if and only if no stored value is misplaced**: where
the bounds have the same sign none is.

Index keys are compared as bytes, and a long is written in two's complement with its highest byte
first. In this order negative numbers come behind all others, so between bounds of different signs
the range is turned inside out. From a negative bound to one that is not, nothing is found; the
other way round, everything from the lower bound on and everything below the upper one. -/
theorem getDocs_long_iff {S : Store} {tid : UInt64} {schema : DocSchema} {fid : UInt8}
    {f : FieldFilter} {lo hi : Int64} (hfid : schema.getFieldId f.name = some fid)
    (hindex : IndexedBy S tid) (hnumber : S.size ≤ f.number) (hlow : f.lowerBound = longBytes lo)
    (hhigh : f.upperBound = longBytes hi)
    (hvalues : ∀ s o w, S.read (.fieldValue tid s o fid) = some w → ∃ v, w = longBytes v) :
    ∃ filtered, collectLocations S tid schema [f] ∅ = .ok filtered ∧
      (CollectsExactly filtered S tid fid (InRange lo hi) ↔
        ∀ s o v, S.read (.fieldValue tid s o fid) = some (longBytes v) → ¬ Misplaced lo hi v) := by
  obtain ⟨filtered, hrun, hexact⟩ := collectsExactly_single hfid hindex hnumber
  refine ⟨filtered, hrun, hexact.trans ?_⟩
  have hvalue : ∀ v s o, (Between f (longBytes v) s o ↔ InRange lo hi (longBytes v)) ↔
      ¬ Misplaced lo hi v := by
    intro v s o
    rw [between_long hlow hhigh, inRange_longBytes, unsigned_between_iff]
  constructor
  · intro h s o v hread
    exact (hvalue v s o).mp (h s o _ hread)
  · intro h s o w hread
    obtain ⟨v, rfl⟩ := hvalues s o w hread
    exact (hvalue v s o).mpr (h s o v hread)

/-- A table with one long field. -/
def longSchema : DocSchema := (DocSchema.new.addLongField [110] 0).build

theorem getFieldId_longSchema : longSchema.getFieldId [110] = some 0 := by decide +kernel

/-- Longs on both sides of 0. -/
def someLongs : List (UInt64 × UInt64 × Bytes) :=
  [(0, 0, longBytes 9), (0, 1, longBytes (-7)), (0, 2, longBytes 12), (1, 0, longBytes 10), (2, 3, longBytes 5)]

theorem read_someLongs {s o : UInt64} {w : Bytes} :
    (ofValues 1 0 someLongs).read (.fieldValue 1 s o 0) = some w ↔ (s, o, w) ∈ someLongs :=
  ((@ofValues_spec 1 0 someLongs (by decide)).2.2 s o 0 w).trans (and_iff_right rfl)

/-- The filter `lo ≤ n < hi`. -/
def longFilter (lo hi : Int64) : FieldFilter :=
  { upperBound := longBytes hi, lowerBound := longBytes lo, name := [110] }

/-- 9 and 5 are found between 0 and 10. -/
theorem getDocs_long_someLongs : ∃ filtered,
    collectLocations (ofValues 1 0 someLongs) 1 longSchema [longFilter 0 10] ∅ = .ok filtered ∧
    ∀ location, location ∈ filtered ↔ location ∈ [addr 0 0 ++ [0], addr 2 3 ++ [0]] := by
  obtain ⟨hindex, hsize, -⟩ := @ofValues_spec 1 0 someLongs (by decide)
  obtain ⟨filtered, hrun, hexact⟩ := getDocs_long_iff (f := longFilter 0 10) getFieldId_longSchema hindex
    (Nat.le_trans hsize (by decide)) rfl rfl fun s o w hw => by
      have hall : ∀ e ∈ someLongs, e.2.2 ∈ [9, -7, 12, 10, 5].map longBytes := by decide
      obtain ⟨v, -, hv⟩ := List.mem_map.mp (hall _ (read_someLongs.mp hw))
      exact ⟨v, hv.symm⟩
  have hplaced : ∀ s o v, (ofValues 1 0 someLongs).read (.fieldValue 1 s o 0) =
      some (longBytes v) → ¬ Misplaced 0 10 v := by
    rintro s o v - (⟨h, -⟩ | ⟨h, -⟩)
    · exact absurd h (by decide)
    · exact absurd h (by decide)
  refine ⟨filtered, hrun, fun location => (hexact.mpr hplaced location).trans ?_⟩
  simp only [read_someLongs]
  have hvalues : ∀ e ∈ someLongs, ∃ v ∈ [(9 : Int64), -7, 12, 10, 5], e.2.2 = longBytes v ∧
      (0 ≤ v ∧ v < 10 → addr e.1 e.2.1 ++ [0] ∈ [addr 0 0 ++ [0], addr 2 3 ++ [0]]) := by
    decide
  constructor
  · rintro ⟨s, o, w, rfl, hw, v, rfl, hrange⟩
    obtain ⟨v', -, hv, hin⟩ := hvalues _ hw
    rw [← longBytes_inj.mp hv] at hin
    exact hin hrange
  · intro hmem
    have hall : ∀ l ∈ [addr 0 0 ++ [0], addr 2 3 ++ [0]], ∃ e ∈ someLongs, l = addr e.1 e.2.1 ++ [0] ∧
        ∃ v ∈ [(9 : Int64), 5], e.2.2 = longBytes v ∧ 0 ≤ v ∧ v < 10 := by
      decide
    obtain ⟨⟨s, o, w⟩, hw, hloc, v, -, hv, hrange⟩ := hall location hmem
    exact ⟨s, o, w, hloc, hw, v, hv, hrange⟩

/-- 5 is between −10 and 10, and is not found. -/
theorem getDocs_long_missed : ∃ filtered,
    collectLocations (ofValues 1 0 someLongs) 1 longSchema [longFilter (-10) 10] ∅ = .ok filtered ∧
    ¬ CollectsExactly filtered (ofValues 1 0 someLongs) 1 0 (InRange (-10) 10) := by
  obtain ⟨hindex, hsize, -⟩ := @ofValues_spec 1 0 someLongs (by decide)
  obtain ⟨filtered, hrun, hexact⟩ := @collectsExactly_single _ _ _ _ (longFilter (-10) 10)
    getFieldId_longSchema hindex (Nat.le_trans hsize (by decide)) (InRange (-10) 10)
  refine ⟨filtered, hrun, fun h => ?_⟩
  have hread := read_someLongs.mpr (by decide : (2, 3, longBytes 5) ∈ someLongs)
  have hbetween := (hexact.mp h 2 3 _ hread).mpr ⟨5, rfl, by decide⟩
  exact absurd ((between_long rfl rfl 5 2 3).mp hbetween) (by decide)

end CxxLab.RocksdbLab
