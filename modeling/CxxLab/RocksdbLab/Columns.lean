import CxxLab.RocksdbLab.GetDoc

/-!
# `RocksDBImpl::LoadField` — the column of a field

`LoadField` goes through the segments of a table up to the current one, picks the records of one field
by a byte of their keys and copies their values behind each other. *It copies the first byte of a
value as often as the value has bytes*, and it compares the byte of the key as a signed `char`.

Each record that it has copied it prints, as `Dump` does. *To print a number it reads eight bytes of the
value, and a `float` has four*: from the first `float` on there is no defined result.

`loadField_column_iff` says for which columns the result is right all the same.
-/

set_option autoImplicit false

namespace CxxLab.RocksdbLab

open Std CxxLab.Lib RocksDBImpl

/-! ## The loops -/

/-- The inner loop, which pushes `val[0]` once for each byte of the value. -/
def copyValue (val : Bytes) : Bytes := val.map fun _ => val.headD 0

/-- `KeyHelper::PrintDBFieldValueKeyValue`, without what it prints. There is no result where it reads past the
end of the value or of the key, follows the null pointer it has for a table without a schema, or asserts. -/
def KeyHelper.printDBFieldValueKeyValue (cache : DBCache) (key val : Bytes) : Option Unit := do
  let (tid, _, _, fid) ← KeyHelper.fieldValueKey key
  let schema ← cache.getSchemaByTid tid
  match schema.getFieldType fid with
  | none => return
  | some fieldType =>
    -- The value of a `FloatField` is read into a `long` as well.
    if fieldType = FieldKind.long.typeValue ∨ fieldType = FieldKind.float.typeValue then
      let _ ← deserialize val
      return
    else if fieldType = FieldKind.string.typeValue ∨ fieldType = FieldKind.floatVector.typeValue then return
    else none

/-- What the loop does with a record of its field. The counter of the inner loop is an `int`, which has
overflowed behind 2^31 - 1. -/
def loadRecord (cache : DBCache) (data : Bytes) (kv : Bytes × Bytes) : Option Bytes :=
  if kv.2.length < 2 ^ 31 then do
    KeyHelper.printDBFieldValueKeyValue cache kv.1 kv.2
    return data ++ copyValue kv.2
  else none

/-- A bound of the keys of a segment. -/
def segmentBound (tid sid : UInt64) (next : UInt8) : Bytes :=
  fieldValuePrefix ++ serialize tid ++ serialize sid ++ [next]

/-- `RocksDBImpl::LoadField(tid, sid, fid, data)`. -/
def loadSegmentField (impl : RocksDBImpl) (tid sid : UInt64) (fid : UInt8) (data : Bytes) : Option Bytes :=
  (impl.db.scan (segmentBound tid sid 0) (some (segmentBound tid sid 255))).foldlM
    (fun data kv => if loadFieldMatches kv.1 fid then loadRecord impl.cache data kv else some data) data

/-- `RocksDBImpl::LoadField(tid, fid, data)`. It asserts that the table has a current segment. There
is no result for the last segment a number can name: the loop then does not end. -/
def loadTableField (impl : RocksDBImpl) (tid : UInt64) (fid : UInt8) (data : Bytes) : Option Bytes := do
  let sidStr ← impl.db[currentSegmentKey tid]?
  let currentSid ← deserialize sidStr
  if currentSid.toNat + 1 < 2 ^ 64 then
    (List.range (currentSid.toNat + 1)).foldlM
      (fun data sid => loadSegmentField impl tid (UInt64.ofNat sid) fid data) data
  else none

/-- `RocksDBImpl::LoadField`. There is no result where it follows the null pointer it has for a table
without a schema. -/
def RocksDBImpl.loadField (impl : RocksDBImpl) (tableName fieldName data : Bytes) :
    Option (Status × Bytes) :=
  match impl.cache.getTidByTname tableName with
  | none => some (.notFound, data)
  | some tid => do
    let schema ← impl.cache.getSchemaByTid tid
    match schema.getFieldId fieldName with
    | none => return (.notFound, data)
    | some fieldId =>
      match schema.getFieldType fieldId with
      | none => return (.notFound, data)
      | some fieldType =>
        if fieldType = FieldKind.string.typeValue then return (.notFound, data)
        else return (.ok, ← loadTableField impl tid fieldId data)

/-! ## The column -/

/-- The order of `(sid, id)`. -/
def Before (l l' : Location) : Prop := l.1 < l'.1 ∨ l.1 = l'.1 ∧ l.2 < l'.2

/-- **The column of a field**: the values stored for it, in the order of their locations. -/
structure IsColumn (S : Store) (tid : UInt64) (fid : UInt8) (column : List (Location × Bytes)) :
    Prop where
  ascending : column.Pairwise fun e e' => Before e.1 e'.1
  mem : ∀ s o v, ((s, o), v) ∈ column ↔ S.read (.fieldValue tid s o fid) = some v

/-- **`LoadField` loads the column**: it returns the values behind each other. -/
def LoadsColumn (impl : RocksDBImpl) (name field : Bytes) (tid : UInt64) (fid : UInt8) : Prop :=
  ∃ column, IsColumn impl.db tid fid column ∧
    impl.loadField name field [] = some (.ok, column.flatMap Prod.snd)

/-- What `LoadField` finds of a column, with `sid` the current segment. -/
structure Reached (sid : UInt64) (fid : UInt8) (l : Location) : Prop where
  positive : fid < 128
  segment : l.1 ≤ sid
  offset : l.2.toNat < 255 * 2 ^ 56

instance (sid : UInt64) (fid : UInt8) (l : Location) : Decidable (Reached sid fid l) :=
  decidable_of_iff (fid < 128 ∧ l.1 ≤ sid ∧ l.2.toNat < 255 * 2 ^ 56)
    ⟨fun ⟨h₁, h₂, h₃⟩ => ⟨h₁, h₂, h₃⟩, fun h => ⟨h.positive, h.segment, h.offset⟩⟩

/-- **A value that `LoadField` gets over**, of a field of the kind: it counts the bytes in an `int`, and prints
a number from eight of them. -/
structure Loadable (kind : FieldKind) (v : Bytes) : Prop where
  length : v.length < 2 ^ 31
  printed : kind = .long ∨ kind = .float → 8 ≤ v.length

instance (kind : FieldKind) (v : Bytes) : Decidable (Loadable kind v) :=
  decidable_of_iff (v.length < 2 ^ 31 ∧ (kind = .long ∨ kind = .float → 8 ≤ v.length))
    ⟨fun ⟨h₁, h₂⟩ => ⟨h₁, h₂⟩, fun h => ⟨h.length, h.printed⟩⟩

/-! ## Keys of values -/

theorem compare_addr (s o s' o' : UInt64) :
    compare (addr s o) (addr s' o') = (compare s s').then (compare o o') := by
  rw [addr, addr, compare_append_append (by simp), compare_serialize, compare_serialize]

theorem compare_addr_eq_lt {s o s' o' : UInt64} :
    compare (addr s o) (addr s' o') = .lt ↔ Before (s, o) (s', o') := by
  have hfirst : s < s' ↔ compare s s' = .lt := Std.compare_eq_lt.symm
  have hsame : s = s' ↔ compare s s' = .eq := Std.compare_eq_iff_eq.symm
  have hsecond : o < o' ↔ compare o o' = .lt := Std.compare_eq_lt.symm
  rw [compare_addr, Before, hfirst, hsame, hsecond]
  cases compare s s' <;> simp

/-- The keys of one field are in the order of their locations. -/
theorem compare_fieldValueKey {tid s o s' o' : UInt64} {fid : UInt8} :
    compare (fieldValueKey tid (addr s o) fid) (fieldValueKey tid (addr s' o') fid) = .lt ↔
      Before (s, o) (s', o') := by
  rw [fieldValueKey, fieldValueKey, List.append_assoc, List.append_assoc _ (addr s' o'),
    compare_append_left, compare_append_append (by simp), Std.compare_self, Ordering.then_eq,
    compare_addr_eq_lt]

theorem serialize_eq_cons (o : UInt64) :
    ∃ b rest, serialize o = b :: rest ∧ b.toNat = o.toNat / 2 ^ 56 := by
  have hlt := o.toNat_lt
  refine ⟨UInt8.ofNat (o.toNat / 256 ^ 7), BigEndian.toBytes 7 o.toNat, rfl, ?_⟩
  rw [UInt8.toNat_ofNat', Nat.mod_eq_of_lt] <;> omega

/-- What lies between the bounds of a segment. -/
theorem between_segmentBounds (tid sid o : UInt64) (f : UInt8) :
    (compare (segmentBound tid sid 0) (fieldValueKey tid (addr sid o) f)).isLE = true ∧
      (compare (fieldValueKey tid (addr sid o) f) (segmentBound tid sid 255) = .lt ↔
        o.toNat < 255 * 2 ^ 56) := by
  obtain ⟨b, rest, hb, hnat⟩ := serialize_eq_cons o
  have hkey : fieldValueKey tid (addr sid o) f =
      fieldValuePrefix ++ serialize tid ++ serialize sid ++ (b :: (rest ++ [f])) := by
    simp only [fieldValueKey, addr, hb, List.append_assoc, List.cons_append]
  -- Behind the first byte of the offset the key goes on, and the bounds do not.
  obtain ⟨c, cs, hcons⟩ : ∃ c cs, rest ++ [f] = c :: cs :=
    List.exists_cons_of_ne_nil (List.append_ne_nil_of_right_ne_nil _ (List.cons_ne_nil _ _))
  rw [hkey, segmentBound, segmentBound, compare_append_left, compare_append_left,
    List.compare_cons_cons, List.compare_cons_cons, hcons]
  constructor
  · rw [isLE_then rfl]
    exact Std.isLE_compare.mpr (UInt8.le_iff_toNat_le.mpr (Nat.zero_le _))
  · have h255 : (255 : UInt8).toNat = 255 := rfl
    have hnil : compare (c :: cs) ([] : Bytes) ≠ .lt := Ordering.noConfusion
    rw [then_eq_lt hnil, Std.compare_eq_lt, UInt8.lt_iff_toNat_lt, hnat, h255]
    omega

/-- **The records between the bounds of a segment** are those of the documents in it. -/
theorem mem_scan_segment {impl : RocksDBImpl} (hr : Registry impl) {tid sid : UInt64}
    {key val : Bytes} :
    (key, val) ∈ impl.db.scan (segmentBound tid sid 0) (some (segmentBound tid sid 255)) ↔
      ∃ o f, o.toNat < 255 * 2 ^ 56 ∧ key = (Key.fieldValue tid sid o f).encode ∧
        impl.db.read (.fieldValue tid sid o f) = some val := by
  rw [KVStore.mem_scan]
  constructor
  · rintro ⟨hget, hlow, hupper⟩
    have hhigh := hupper _ rfl
    obtain ⟨k, rfl⟩ := hr.keys key (mem_iff_exists.mpr ⟨val, hget⟩)
    obtain ⟨s, o, f, rfl, rest, hrest⟩ := Key.exists_fieldValue hlow hhigh
    rw [addr, List.append_assoc] at hrest
    obtain ⟨hsid, -⟩ := List.append_inj hrest (by simp)
    cases serialize_inj.mp hsid
    exact ⟨o, f, (between_segmentBounds tid sid o f).2.mp hhigh, rfl, hget⟩
  · rintro ⟨o, f, ho, rfl, hread⟩
    refine ⟨hread, (between_segmentBounds tid sid o f).1, ?_⟩
    rintro u hu
    cases hu
    exact (between_segmentBounds tid sid o f).2.mpr ho

/-! ## What is loaded -/

section Loaded

variable {impl : RocksDBImpl} {tid sid : UInt64} {fid : UInt8}

/-- The records `LoadField` copies, in the order in which it does. -/
def loadedRecords (db : Store) (tid sid : UInt64) (fid : UInt8) : List (Bytes × Bytes) :=
  (List.range (sid.toNat + 1)).flatMap fun s =>
    (db.scan (segmentBound tid (UInt64.ofNat s) 0) (some (segmentBound tid (UInt64.ofNat s) 255))).filter
      fun kv => loadFieldMatches kv.1 fid

theorem loadSegmentField_eq (impl : RocksDBImpl) (tid sid : UInt64) (fid : UInt8) (data : Bytes) :
    loadSegmentField impl tid sid fid data =
      ((impl.db.scan (segmentBound tid sid 0) (some (segmentBound tid sid 255))).filter
        fun kv => loadFieldMatches kv.1 fid).foldlM (loadRecord impl.cache) data := by
  rw [loadSegmentField]
  generalize impl.db.scan _ _ = records
  induction records generalizing data with
  | nil => rfl
  | cons kv records ih =>
    rw [List.foldlM_cons, List.filter_cons]
    split
    · rw [List.foldlM_cons]
      exact bind_congr fun data => ih data
    · exact ih data

theorem loadTableField_eq (hr : Registry impl) (hsid : impl.cache.segmap[tid]? = some sid)
    (data : Bytes) : loadTableField impl tid fid data =
      if sid.toNat + 1 < 2 ^ 64 then (loadedRecords impl.db tid sid fid).foldlM (loadRecord impl.cache) data
      else none := by
  have hrecord : impl.db[currentSegmentKey tid]? = some (serialize sid) := by
    have := hr.segments tid
    rwa [hsid] at this
  rw [loadTableField, hrecord, Option.bind_eq_bind, Option.bind_some, deserialize_serialize,
    Option.bind_eq_bind, Option.bind_some, loadedRecords]
  generalize List.range (sid.toNat + 1) = segments
  split
  · induction segments generalizing data with
    | nil => rfl
    | cons s segments ih =>
      rw [List.foldlM_cons, loadSegmentField_eq, List.flatMap_cons, List.foldlM_append]
      exact bind_congr fun data => ih data
  · rfl

/-- **The records are loaded** behind each other, if `LoadField` gets over all of them. -/
theorem foldlM_loadRecord {cache : DBCache} {records : List (Bytes × Bytes)} {kind : FieldKind}
    (hrecords : ∀ kv ∈ records, ∀ data,
      loadRecord cache data kv = if Loadable kind kv.2 then some (data ++ copyValue kv.2) else none)
    (data : Bytes) : records.foldlM (loadRecord cache) data =
      if ∀ kv ∈ records, Loadable kind kv.2 then some (data ++ records.flatMap fun kv => copyValue kv.2)
      else none := by
  induction records generalizing data with
  | nil => simp
  | cons kv records ih =>
    obtain ⟨hkv, hrecords⟩ := List.forall_mem_cons.mp hrecords
    rw [List.foldlM_cons, hkv, if_congr List.forall_mem_cons rfl rfl]
    by_cases hload : Loadable kind kv.2
    · rw [if_pos hload, Option.bind_eq_bind, Option.bind_some, ih hrecords, List.flatMap_cons, List.append_assoc,
        if_congr (and_iff_right hload) rfl rfl]
    · rw [if_neg hload, if_neg fun h => hload h.1]
      rfl

/-- A record of the field is one `LoadField` gets over or not by its value alone. -/
theorem loadRecord_fieldValue {cache : DBCache} {schema : DocSchema} {kind : FieldKind}
    (hschema : cache.getSchemaByTid tid = some schema) (htype : schema.getFieldType fid = some kind.typeValue)
    (s o : UInt64) (v data : Bytes) :
    loadRecord cache data (fieldValueKey tid (addr s o) fid, v) =
      if Loadable kind v then some (data ++ copyValue v) else none := by
  have hkey : KeyHelper.fieldValueKey (fieldValueKey tid (addr s o) fid) = some (tid, s, o, fid) :=
    (readBack_fieldValue tid s o fid).1
  have hprint : KeyHelper.printDBFieldValueKeyValue cache (fieldValueKey tid (addr s o) fid) v =
      if kind = .long ∨ kind = .float → 8 ≤ v.length then some () else none := by
    simp only [KeyHelper.printDBFieldValueKeyValue, hkey, hschema, htype, Option.bind_eq_bind, Option.bind_some]
    by_cases hlen : 8 ≤ v.length <;> cases kind <;> simp [FieldKind.typeValue, deserialize, hlen]
  rw [loadRecord, hprint]
  by_cases hlen : v.length < 2 ^ 31
  · by_cases hnum : kind = .long ∨ kind = .float → 8 ≤ v.length
    · rw [if_pos hlen, if_pos hnum, if_pos ⟨hlen, hnum⟩]
      rfl
    · rw [if_pos hlen, if_neg hnum, if_neg fun h => hnum h.printed]
      rfl
  · rw [if_neg hlen, if_neg fun h => hlen h.length]

theorem mem_loadedRecords (hr : Registry impl) {key val : Bytes} :
    (key, val) ∈ loadedRecords impl.db tid sid fid ↔ ∃ s o, Reached sid fid (s, o) ∧
      key = fieldValueKey tid (addr s o) fid ∧
      impl.db.read (.fieldValue tid s o fid) = some val := by
  simp only [loadedRecords, List.mem_flatMap, List.mem_range, List.mem_filter, mem_scan_segment hr]
  constructor
  · rintro ⟨s, hs, ⟨o, f, ho, rfl, hread⟩, hmatch⟩
    obtain ⟨rfl, hpositive⟩ := (loadFieldMatches_encode_iff tid _ o f fid).mp hmatch
    have hnat := UInt64.toNat_ofNat_of_lt'
      (Nat.lt_of_le_of_lt (Nat.le_of_lt_succ hs) sid.toNat_lt)
    refine ⟨UInt64.ofNat s, o, ⟨hpositive, UInt64.le_iff_toNat_le.mpr ?_, ho⟩, rfl, hread⟩
    rw [hnat]
    exact Nat.le_of_lt_succ hs
  · rintro ⟨s, o, ⟨hpositive, hs, ho⟩, rfl, hread⟩
    refine ⟨s.toNat, Nat.lt_succ_of_le (UInt64.le_iff_toNat_le.mp hs), ?_⟩
    rw [UInt64.ofNat_toNat]
    exact ⟨⟨o, fid, ho, rfl, hread⟩, (loadFieldMatches_encode_iff tid s o fid fid).mpr ⟨rfl, hpositive⟩⟩

theorem loadedRecords_sorted (hr : Registry impl) (tid sid : UInt64) (fid : UInt8) :
    (loadedRecords impl.db tid sid fid).Pairwise fun a b => compare a.1 b.1 = .lt := by
  refine List.pairwise_flatMap.mpr ⟨fun s _ => (KVStore.scan_sorted _ _ _).filter _, ?_⟩
  refine List.pairwise_lt_range.imp_of_mem fun {i j} hi hj hlt => ?_
  rintro ⟨key, val⟩ hkey ⟨key', val'⟩ hkey'
  obtain ⟨o, f, -, rfl, -⟩ := (mem_scan_segment hr).mp (List.mem_filter.mp hkey).1
  obtain ⟨o', f', -, rfl, -⟩ := (mem_scan_segment hr).mp (List.mem_filter.mp hkey').1
  have hnat : ∀ {s}, s ∈ List.range (sid.toNat + 1) → (UInt64.ofNat s).toNat = s := fun hs =>
    UInt64.toNat_ofNat_of_lt'
      (Nat.lt_of_le_of_lt (Nat.le_of_lt_succ (List.mem_range.mp hs)) sid.toNat_lt)
  -- Records of two segments are apart by the segment, which comes first in the key.
  have hsid : UInt64.ofNat i < UInt64.ofNat j := by
    rw [UInt64.lt_iff_toNat_lt, hnat hi, hnat hj]
    exact hlt
  have hbefore : compare (addr (UInt64.ofNat i) o) (addr (UInt64.ofNat j) o') = .lt :=
    compare_addr_eq_lt.mpr (.inl hsid)
  rw [Key.encode, Key.encode, fieldValueKey, fieldValueKey, List.append_assoc, List.append_assoc _ _ [f'],
    compare_append_left, compare_append_append (by simp), hbefore]
  rfl

/-- The entry of a record in the column of its field. -/
def columnEntry (tid : UInt64) (fid : UInt8) (kv : Bytes × Bytes) : Option (Location × Bytes) :=
  match dumpFamily kv.1, KeyHelper.fieldValueKey kv.1 with
  | some .fieldValue, some (t, s, o, f) => if t = tid ∧ f = fid then some ((s, o), kv.2) else none
  | _, _ => none

theorem columnEntry_eq_some {k : Key} {val v : Bytes} {s o : UInt64} :
    columnEntry tid fid (k.encode, val) = some ((s, o), v) ↔
      k = .fieldValue tid s o fid ∧ val = v := by
  rw [columnEntry, dumpFamily_encode]
  cases k <;> simp only [Key.kind, reduceCtorEq, false_and]
  case fieldValue t s' o' f =>
    rw [(readBack_fieldValue t s' o' f).1]
    simp only [Key.fieldValue.injEq]
    split
    · next heq =>
      obtain ⟨rfl, rfl⟩ := heq
      simp
    · next hne =>
      refine ⟨fun h => (by cases h), ?_⟩
      rintro ⟨⟨rfl, rfl, rfl, rfl⟩, -⟩
      exact absurd ⟨rfl, rfl⟩ hne

/-- **Every field has a column.** -/
theorem exists_column (hr : Registry impl) (tid : UInt64) (fid : UInt8) :
    ∃ column, IsColumn impl.db tid fid column := by
  refine ⟨impl.db.toList.filterMap (columnEntry tid fid), ?_, fun s o v => ?_⟩
  · refine List.pairwise_filterMap.mpr (ExtTreeMap.ordered_keys_toList.imp_of_mem ?_)
    rintro ⟨key, val⟩ ⟨key', val'⟩ hkey hkey' hlt ⟨⟨s, o⟩, v⟩ hentry ⟨⟨s', o'⟩, v'⟩ hentry'
    have hget := ExtTreeMap.mem_toList_iff_getElem?_eq_some.mp hkey
    have hget' := ExtTreeMap.mem_toList_iff_getElem?_eq_some.mp hkey'
    obtain ⟨k, rfl⟩ := hr.keys key (mem_iff_exists.mpr ⟨val, hget⟩)
    obtain ⟨k', rfl⟩ := hr.keys key' (mem_iff_exists.mpr ⟨val', hget'⟩)
    obtain ⟨rfl, rfl⟩ := columnEntry_eq_some.mp hentry
    obtain ⟨rfl, rfl⟩ := columnEntry_eq_some.mp hentry'
    exact compare_fieldValueKey.mp hlt
  · rw [List.mem_filterMap]
    constructor
    · rintro ⟨⟨key, val⟩, hmem, hentry⟩
      have hget := ExtTreeMap.mem_toList_iff_getElem?_eq_some.mp hmem
      obtain ⟨k, rfl⟩ := hr.keys key (mem_iff_exists.mpr ⟨val, hget⟩)
      obtain ⟨rfl, rfl⟩ := columnEntry_eq_some.mp hentry
      exact hget
    · intro hread
      exact ⟨(_, v), ExtTreeMap.mem_toList_iff_getElem?_eq_some.mpr hread,
        columnEntry_eq_some.mpr ⟨rfl, rfl⟩⟩

/-- **What is loaded of a column**: the values that are found, each as copies of its first byte. -/
theorem IsColumn.loaded (hr : Registry impl) {column : List (Location × Bytes)}
    (h : IsColumn impl.db tid fid column) :
    (loadedRecords impl.db tid sid fid).flatMap (fun kv => copyValue kv.2) =
      column.flatMap fun e => if Reached sid fid e.1 then copyValue e.2 else [] := by
  have hrecords : loadedRecords impl.db tid sid fid =
      (column.filter fun e => Reached sid fid e.1).map fun e =>
        (fieldValueKey tid (addr e.1.1 e.1.2) fid, e.2) := by
    have hsorted := loadedRecords_sorted hr tid sid fid
    have hsorted' : ((column.filter fun e => Reached sid fid e.1).map fun e =>
        (fieldValueKey tid (addr e.1.1 e.1.2) fid, e.2)).Pairwise
          fun a b => compare a.1 b.1 = .lt := by
      refine List.pairwise_map.mpr ((h.ascending.filter _).imp fun {e e'} hlt => ?_)
      exact compare_fieldValueKey.mpr hlt
    refine eq_of_keys_ascending hsorted hsorted' ?_
    rintro ⟨key, val⟩
    rw [mem_loadedRecords hr, List.mem_map]
    constructor
    · rintro ⟨s, o, hreached, rfl, hread⟩
      refine ⟨((s, o), val), List.mem_filter.mpr ⟨(h.mem s o val).mpr hread, ?_⟩, rfl⟩
      exact decide_eq_true hreached
    · rintro ⟨⟨⟨s, o⟩, v⟩, hentry, heq⟩
      cases heq
      obtain ⟨hmem, hreached⟩ := List.mem_filter.mp hentry
      exact ⟨s, o, of_decide_eq_true hreached, rfl, (h.mem s o v).mp hmem⟩
  rw [hrecords, List.flatMap_map]
  clear hrecords h
  induction column with
  | nil => rfl
  | cons e column ih =>
    rw [List.filter_cons, List.flatMap_cons]
    by_cases hreached : Reached sid fid e.1
    · rw [if_pos (decide_eq_true hreached), if_pos hreached, List.flatMap_cons, ih]
    · rw [if_neg (by simpa using hreached), if_neg hreached, List.nil_append, ih]

end Loaded

/-! ## Which columns are right -/

theorem copyValue_eq_iff {v : Bytes} : copyValue v = v ↔ ∃ b, v = List.replicate v.length b := by
  rw [copyValue, List.map_const']
  constructor
  · intro h
    exact ⟨_, h.symm⟩
  · rintro ⟨b, h⟩
    cases v with
    | nil => rfl
    | cons c v =>
      obtain ⟨hb, -⟩ := List.cons.inj h
      rw [hb]
      exact hb ▸ h.symm

/-- An entry that is not found, or not copied right, is missed if it has any bytes. -/
theorem loadedEntry_eq_iff {sid : UInt64} {fid : UInt8} (l : Location) (v : Bytes) :
    (if Reached sid fid l then copyValue v else []) = v ↔
      (v ≠ [] → Reached sid fid l ∧ ∃ b, v = List.replicate v.length b) := by
  rw [← copyValue_eq_iff]
  by_cases hempty : v = []
  · rw [hempty]
    simp [copyValue]
  · by_cases hreached : Reached sid fid l
    · simp [hempty, hreached]
    · simp [hempty, hreached, Ne.symm hempty]

/-- **A column is loaded right** if each of its entries is: no entry is loaded with more bytes than it
has, so none makes up for another. -/
theorem IsColumn.loads_iff {impl : RocksDBImpl} (hr : Registry impl) {tid sid : UInt64} {fid : UInt8}
    {column : List (Location × Bytes)} (h : IsColumn impl.db tid fid column) :
    (loadedRecords impl.db tid sid fid).flatMap (fun kv => copyValue kv.2) =
        column.flatMap Prod.snd ↔
      ∀ s o v, impl.db.read (.fieldValue tid s o fid) = some v → v ≠ [] →
        Reached sid fid (s, o) ∧ ∃ b, v = List.replicate v.length b := by
  have hle : ∀ e ∈ column,
      (if Reached sid fid e.1 then copyValue e.2 else []).length ≤ e.2.length := by
    intro e _
    split
    · exact Nat.le_of_eq (List.length_map _)
    · exact Nat.zero_le _
  rw [h.loaded hr, flatMap_eq_flatMap_iff hle]
  constructor
  · intro hall s o v hread
    exact (loadedEntry_eq_iff _ v).mp (hall _ ((h.mem s o v).mpr hread))
  · rintro hall ⟨⟨s, o⟩, v⟩ he
    exact (loadedEntry_eq_iff _ v).mpr (hall s o v ((h.mem s o v).mp he))

/-- `LoadField` gets to its end. -/
theorem loadField_eq {impl : RocksDBImpl} (hr : Registry impl) {name field : Bytes} {tid sid : UInt64}
    {schema : DocSchema} {fid : UInt8} {kind : FieldKind} (hid : impl.cache.getTidByTname name = some tid)
    (hschema : impl.cache.getSchemaByTid tid = some schema) (hfid : schema.getFieldId field = some fid)
    (htype : schema.getFieldType fid = some kind.typeValue) (hkind : kind ≠ .string)
    (hsid : impl.cache.segmap[tid]? = some sid) :
    impl.loadField name field [] =
      if sid.toNat + 1 < 2 ^ 64 ∧ ∀ kv ∈ loadedRecords impl.db tid sid fid, Loadable kind kv.2 then
        some (.ok, (loadedRecords impl.db tid sid fid).flatMap fun kv => copyValue kv.2)
      else none := by
  have hstring : kind.typeValue ≠ FieldKind.string.typeValue := by
    cases kind with
    | string => exact absurd rfl hkind
    | long | float | floatVector => decide
  have hrecords : ∀ kv ∈ loadedRecords impl.db tid sid fid, ∀ data, loadRecord impl.cache data kv =
      if Loadable kind kv.2 then some (data ++ copyValue kv.2) else none := by
    rintro ⟨key, val⟩ hmem data
    obtain ⟨s, o, -, rfl, -⟩ := (mem_loadedRecords hr).mp hmem
    exact loadRecord_fieldValue hschema htype s o val data
  simp only [loadField, hid, hschema, hfid, htype, if_neg hstring, loadTableField_eq hr hsid,
    foldlM_loadRecord hrecords, Option.bind_eq_bind, Option.bind_some, List.nil_append]
  by_cases hlast : sid.toNat + 1 < 2 ^ 64
  · by_cases hall : ∀ kv ∈ loadedRecords impl.db tid sid fid, Loadable kind kv.2
    · rw [if_pos hlast, if_pos hall, if_pos ⟨hlast, hall⟩]
      rfl
    · rw [if_pos hlast, if_neg hall, if_neg fun h => hall h.2]
      rfl
  · rw [if_neg hlast, if_neg fun h => hlast h.1]
    rfl

/-- **`LoadField` loads the column of a field if and only if** the current segment is not the last one,
it gets over each value that it finds, and each value with bytes in it is found and consists of one byte,
again and again. -/
theorem loadField_column_iff {ops : List Op} {impl : RocksDBImpl} {name field : Bytes}
    {tid sid : UInt64} {schema : DocSchema} {fid : UInt8} {kind : FieldKind}
    (hrun : runSteps step opened ops = some impl)
    (hid : impl.cache.getTidByTname name = some tid)
    (hschema : impl.cache.getSchemaByTid tid = some schema)
    (hfid : schema.getFieldId field = some fid) (htype : schema.getFieldType fid = some kind.typeValue)
    (hkind : kind ≠ .string) (hsid : impl.cache.segmap[tid]? = some sid) :
    LoadsColumn impl name field tid fid ↔ sid.toNat + 1 < 2 ^ 64 ∧
      ∀ s o v, impl.db.read (.fieldValue tid s o fid) = some v →
        (Reached sid fid (s, o) → Loadable kind v) ∧
        (v ≠ [] → Reached sid fid (s, o) ∧ ∃ b, v = List.replicate v.length b) := by
  have hr := Registry.run hrun
  have hloadable : (∀ kv ∈ loadedRecords impl.db tid sid fid, Loadable kind kv.2) ↔
      ∀ s o v, impl.db.read (.fieldValue tid s o fid) = some v → Reached sid fid (s, o) → Loadable kind v := by
    constructor
    · intro hall s o v hread hreached
      exact hall _ ((mem_loadedRecords hr).mpr ⟨s, o, hreached, rfl, hread⟩)
    · rintro hall ⟨key, val⟩ hmem
      obtain ⟨s, o, hreached, -, hread⟩ := (mem_loadedRecords hr).mp hmem
      exact hall s o val hread hreached
  rw [LoadsColumn, loadField_eq hr hid hschema hfid htype hkind hsid]
  constructor
  · rintro ⟨column, h, heq⟩
    split at heq
    · next hends =>
      rw [Option.some_inj, Prod.mk.injEq] at heq
      exact ⟨hends.1, fun s o v hread =>
        ⟨hloadable.mp hends.2 s o v hread, (h.loads_iff hr).mp heq.2 s o v hread⟩⟩
    · cases heq
  · rintro ⟨hlast, hall⟩
    obtain ⟨column, h⟩ := exists_column hr tid fid
    have hends := hloadable.mpr fun s o v hread => (hall s o v hread).1
    refine ⟨column, h, ?_⟩
    rw [if_pos ⟨hlast, hends⟩, (h.loads_iff hr).mpr fun s o v hread => (hall s o v hread).2]

/-- In a run that uses up neither table ids nor segments every value is found, below field 128. -/
theorem Refines.reached {ops : List Op} {impl : RocksDBImpl} (h : Refines ops impl) {name : Bytes}
    {tid sid offset : UInt64} {schema : DocSchema} (ht : Table impl name tid schema sid offset)
    {s o : UInt64} {fid : UInt8} {v : Bytes} (hfid : fid < 128)
    (hv : impl.db.read (.fieldValue tid s o fid) = some v) : Reached sid fid (s, o) := by
  obtain ⟨docs, hdocs⟩ := mem_iff_exists.mp ((h.names name).mpr (mem_iff_exists.mpr ⟨tid, ht.id⟩))
  obtain ⟨uid, huid⟩ := (h.stored name tid schema sid offset docs ht hdocs).live s o fid v hv
  have hplaced := h.layout.table ht
  obtain ⟨ho, hlt⟩ := hplaced.lt huid
  refine ⟨hfid, ?_, ?_⟩
  · rcases (slot_lt_iff ho hplaced.offset_lt).mp hlt with hs | ⟨rfl, -⟩
    · exact UInt64.le_of_lt hs
    · exact UInt64.le_refl s
  · have := lt_segmentSize.mp ho
    show o.toNat < _
    omega

/-- A table with two documents whose second numbers are 0 and -1. -/
def repeatedRun : List Op :=
  [.createTable pairs pairSchema, .addDoc pairs (pairDoc 1 0) true, .addDoc pairs (pairDoc 2 (-1)) true]

/-- Its column is loaded: each number in it is a byte repeated. -/
theorem repeatedRun_loadField : ∃ impl tid, runSteps step opened repeatedRun = some impl ∧
    LoadsColumn impl pairs [97] tid 1 := by
  obtain ⟨impl, tid, sid, offset, hrun, href, ht⟩ :=
    @exists_pairs_table [.addDoc pairs (pairDoc 1 0) true, .addDoc pairs (pairDoc 2 (-1)) true]
      (by decide +kernel) (by decide) (by decide)
  have hvalues : ((collections repeatedRun)[pairs]?.map fun docs =>
      docs.toList.map fun d => d.2[(1 : UInt8)]?) =
        some [some (List.replicate 8 0), some (List.replicate 8 255)] := by
    decide +kernel
  have hvalue : ∀ s o v, impl.db.read (.fieldValue tid s o 1) = some v → ∃ b, v = List.replicate 8 b := by
    intro s o v hv
    obtain ⟨docs, hdocs⟩ := mem_iff_exists.mp ((href.names pairs).mpr (mem_iff_exists.mpr ⟨tid, ht.id⟩))
    rw [show (collections repeatedRun)[pairs]? = some docs from hdocs, Option.map_some,
      Option.some_inj] at hvalues
    have hstored := href.stored pairs tid pairSchema sid offset docs ht hdocs
    obtain ⟨uid, huid⟩ := hstored.live s o 1 v hv
    obtain ⟨m, hm⟩ := hstored.exists_doc huid
    have hin := List.mem_map_of_mem (f := fun d : Bytes × Fields => d.2[(1 : UInt8)]?)
      (ExtTreeMap.mem_toList_iff_getElem?_eq_some.mpr hm)
    rw [hvalues, ← hstored.values uid m s o hm huid, hv, List.mem_pair, Option.some_inj, Option.some_inj] at hin
    rcases hin with hzero | hones
    · exact ⟨0, hzero⟩
    · exact ⟨255, hones⟩
  have hslot : sid.toNat * 50000 + offset.toNat ≤ 2 := href.layout.slot_le ht
  refine ⟨impl, tid, hrun, (@loadField_column_iff _ _ _ _ _ _ _ _ .long hrun ht.id
    (getSchemaByTid_eq href.layout.catalog ht) (show pairSchema.getFieldId [97] = some 1 by decide +kernel)
    (show pairSchema.getFieldType 1 = some 1 by decide +kernel) (by decide) ht.segment).mpr
    ⟨by omega, fun s o v hv => ?_⟩⟩
  obtain ⟨b, rfl⟩ := hvalue s o v hv
  refine ⟨fun _ => ⟨?_, fun _ => ?_⟩, fun _ => ⟨href.reached ht (by decide) hv, b, ?_⟩⟩ <;>
    simp

/-- The column of the number 5 is loaded as zeros. For a column with a `float` there is no result, not even
for the one that is four times the same byte. -/
theorem firstRun_not_loadField : (∃ impl, runSteps step opened firstRun = some impl ∧
    impl.cache.getTidByTname pairs = some 0 ∧ pairSchema.getFieldId [97] = some 1 ∧
    pairSchema.getFieldType 1 = some FieldKind.long.typeValue ∧
    ¬LoadsColumn impl pairs [97] 0 1) ∧
    ∃ impl, runSteps step opened [.createTable pairs measureSchema,
        .addDoc pairs ((Doc.new 1 measureSchema).addFloatFieldValue [97] 0).build.2 true] = some impl ∧
      impl.cache.getTidByTname pairs = some 0 ∧ measureSchema.getFieldId [97] = some 1 ∧
      measureSchema.getFieldType 1 = some FieldKind.float.typeValue ∧
      impl.db.read (.fieldValue 0 0 0 1) = some [0, 0, 0, 0] ∧ ¬LoadsColumn impl pairs [97] 0 1 := by
  constructor
  · have hreads : ((runSteps step opened firstRun).map fun impl =>
        (impl.cache.getTidByTname pairs, impl.loadField pairs [97] [],
          impl.db.read (.fieldValue 0 0 0 1))) =
        some (some 0, some (.ok, List.replicate 8 0), some (serialize 5)) := by
      decide +kernel
    obtain ⟨impl, hrun, hread⟩ := Option.map_eq_some_iff.mp hreads
    rw [Prod.mk.injEq, Prod.mk.injEq] at hread
    obtain ⟨hid, hload, hvalue⟩ := hread
    refine ⟨impl, hrun, hid, by decide +kernel, by decide +kernel, ?_⟩
    rintro ⟨column, hcolumn, hall⟩
    rw [hload, Option.some_inj, Prod.mk.injEq] at hall
    have hfive : (5 : UInt8) ∈ column.flatMap Prod.snd :=
      List.mem_flatMap.mpr ⟨_, (hcolumn.mem 0 0 _).mpr hvalue, by decide⟩
    rw [← hall.2] at hfive
    exact absurd (List.eq_of_mem_replicate hfive) (by decide)
  · have hreads : ((runSteps step opened [.createTable pairs measureSchema,
        .addDoc pairs ((Doc.new 1 measureSchema).addFloatFieldValue [97] 0).build.2 true]).map fun impl =>
        (impl.cache.getTidByTname pairs, impl.loadField pairs [97] [],
          impl.db.read (.fieldValue 0 0 0 1))) = some (some 0, none, some [0, 0, 0, 0]) := by
      decide +kernel
    obtain ⟨impl, hrun, hread⟩ := Option.map_eq_some_iff.mp hreads
    rw [Prod.mk.injEq, Prod.mk.injEq] at hread
    obtain ⟨hid, hload, hvalue⟩ := hread
    refine ⟨impl, hrun, hid, by decide +kernel, by decide +kernel, hvalue, ?_⟩
    rintro ⟨column, -, hall⟩
    rw [hload] at hall
    cases hall

end CxxLab.RocksdbLab
