import CxxLab.RocksdbLab.Impl

/-!
# Taking keys apart

Keys are built in one way and taken apart in many: `Dump` asks for prefixes, `KeyHelper` reads the
parts of a key to print them, `Init` reads names and table ids, `GetDocs` reads locations off the end
of an index key and `LoadField` looks at one byte. Each does so with offsets of its own.

`readers_agree` puts them side by side: for every record, `Dump` finds the family that wrote its key,
and every reader of that family finds the parts the key was made of.

`LoadField` compares the byte it looks at as a `char`. On a machine where `char` is signed that is
the field id only below 128 (`loadFieldMatches_encode_iff`).
-/

set_option autoImplicit false

namespace CxxLab.RocksdbLab

open Std CxxLab.Lib

/-! ## `Dump` -/

/-- The record families. -/
inductive Family where
  | sequence
  | table
  | currentSegment
  | segmentNextID
  | uidIdMapping
  | mapping
  | fieldIndex
  | fieldValue
  deriving DecidableEq, Repr

/-- The family a record is of. -/
def Key.kind : Key → Family
  | sequence => .sequence
  | table _ => .table
  | currentSegment _ => .currentSegment
  | segmentNextID _ => .segmentNextID
  | uidIdMapping _ _ => .uidIdMapping
  | mapping _ => .mapping
  | fieldIndex _ _ _ _ _ => .fieldIndex
  | fieldValue _ _ _ _ => .fieldValue

/-- The chain of `starts_with` in `RocksDBImpl::Dump`. -/
def dumpFamily (key : Bytes) : Option Family :=
  if tablePrefix.isPrefixOf key then some .table
  else if currentSegmentPrefix.isPrefixOf key then some .currentSegment
  else if tableSequenceKey.isPrefixOf key then some .sequence
  else if segmentNextIDPrefix.isPrefixOf key then some .segmentNextID
  else if uidIdMappingPrefix.isPrefixOf key then some .uidIdMapping
  else if mappingPrefix.isPrefixOf key then some .mapping
  else if fieldIndexPrefix.isPrefixOf key then some .fieldIndex
  else if fieldValuePrefix.isPrefixOf key then some .fieldValue
  else none

/-! ## The readers -/

/-- `PrefixSize`. -/
def prefixSize : Nat := 3

/-- `Serializer::Deserialize` of the eight bytes at an offset. -/
def wordAt (key : Bytes) (offset : Nat) : Option UInt64 := deserialize (key.drop offset)

namespace KeyHelper

/-- The table id in `PrintDBTableMappingKey`, `PrintDBSegmentNextIDKey` and
`PrintDBCurrentSegmentKey`. -/
def tid (key : Bytes) : Option UInt64 := wordAt key prefixSize

/-- `PrintDBUidIdMappingKey`: the table id and, as eight bytes, the uid. -/
def uidIdMappingKey (key : Bytes) : Option (UInt64 × UInt64) := do
  return (← wordAt key prefixSize, ← wordAt key (prefixSize + 8))

/-- `PrintDBFieldValueKeyValue`: table id, segment, offset and field id. -/
def fieldValueKey (key : Bytes) : Option (UInt64 × UInt64 × UInt64 × UInt8) := do
  return (← wordAt key prefixSize, ← wordAt key (prefixSize + 8), ← wordAt key (prefixSize + 2 * 8),
    ← key[prefixSize + 3 * 8]?)

/-- `PrintDBIndexKey`: table id, field id, the value as it is printed for a string, segment and
offset. -/
def indexKey (key : Bytes) : Option (UInt64 × UInt8 × Bytes × UInt64 × UInt64) := do
  let tid ← wordAt key prefixSize
  let fid ← key[prefixSize + 8]?
  let size := key.length - fieldIndexPrefix.length - 8 - 1 - 2 * 8
  let sid ← wordAt key (key.length - 2 * 8)
  let id ← wordAt key (key.length - 1 * 8)
  return (tid, fid, (key.drop (prefixSize + 8 + 1)).take size, sid, id)

end KeyHelper

/-- The name `Init` reads off a table key. -/
def initTableName (key : Bytes) : Bytes := key.drop tablePrefix.length

/-- The table id `Init` reads off a key of a schema or of a next place. -/
def initTid (key : Bytes) : Option UInt64 := wordAt key mappingPrefix.length

/-- The location `GetDocs` reads off an index key: its last sixteen bytes. -/
def getDocsLocation (key : Bytes) : Bytes := key.drop (key.length - 2 * 8)

/-- What `fid_val` points to in `LoadField`. -/
def loadFieldFid (key : Bytes) : Option UInt8 := key[prefixSize + 8 + 8 + 8]?

/-- `*fid_val == fid` in `LoadField`. The left side is a `char`, which has a sign. -/
def loadFieldMatches (key : Bytes) (fid : UInt8) : Bool :=
  (loadFieldFid key).any fun b => b.toInt8.toInt = (fid.toNat : Int)

/-! ## They agree -/

/-- **Every reader of a record finds what its key was made of.** -/
def Key.ReadBack : Key → Prop
  | sequence => True
  | table name => initTableName (table name).encode = name
  | currentSegment t => KeyHelper.tid (currentSegment t).encode = some t
  | segmentNextID t =>
    KeyHelper.tid (segmentNextID t).encode = some t ∧ initTid (segmentNextID t).encode = some t
  | mapping t => KeyHelper.tid (mapping t).encode = some t ∧ initTid (mapping t).encode = some t
  | uidIdMapping t uid =>
    ∀ u, uid = serialize u → KeyHelper.uidIdMappingKey (uidIdMapping t uid).encode = some (t, u)
  | fieldIndex t fid fval sid id =>
    KeyHelper.indexKey (fieldIndex t fid fval sid id).encode = some (t, fid, fval, sid, id) ∧
      getDocsLocation (fieldIndex t fid fval sid id).encode = addr sid id
  | fieldValue t sid id fid =>
    KeyHelper.fieldValueKey (fieldValue t sid id fid).encode = some (t, sid, id, fid) ∧
      loadFieldFid (fieldValue t sid id fid).encode = some fid

/-- **`Dump` finds the family that wrote a key.** -/
theorem dumpFamily_encode (k : Key) : dumpFamily k.encode = some k.kind := by
  cases k <;> rfl

theorem wordAt_of_append {front rest : Bytes} {x : UInt64} {offset : Nat}
    (h : front.length = offset) : wordAt (front ++ (serialize x ++ rest)) offset = some x := by
  rw [wordAt, List.drop_left' h, deserialize_append]

theorem wordAt_end {front : Bytes} {x : UInt64} {offset : Nat} (h : front.length = offset) :
    wordAt (front ++ serialize x) offset = some x := by
  rw [wordAt, List.drop_left' h, deserialize_serialize]

theorem readBack_uidIdMapping (t : UInt64) (uid : Bytes) : (Key.uidIdMapping t uid).ReadBack := by
  rintro u rfl
  have htid : wordAt (Key.uidIdMapping t (serialize u)).encode prefixSize = some t := by
    rw [Key.encode, uidIdMappingKey, List.append_assoc]
    exact wordAt_of_append rfl
  have huid : wordAt (Key.uidIdMapping t (serialize u)).encode (prefixSize + 8) = some u :=
    wordAt_end (by simp [uidIdMappingPrefix, prefixSize])
  simp [KeyHelper.uidIdMappingKey, htid, huid]

theorem readBack_fieldIndex (t : UInt64) (fid : UInt8) (fval : Bytes) (sid id : UInt64) :
    (Key.fieldIndex t fid fval sid id).ReadBack := by
  obtain ⟨key, hkey⟩ : ∃ key, key = (Key.fieldIndex t fid fval sid id).encode := ⟨_, rfl⟩
  rw [Key.ReadBack, ← hkey]
  rw [Key.encode, fieldIndexKey] at hkey
  have hlen : key.length = 28 + fval.length := by
    rw [hkey]
    simp [fieldIndexPrefix]
    omega
  have htid : wordAt key prefixSize = some t := by
    rw [hkey]
    simp only [List.append_assoc]
    exact wordAt_of_append rfl
  have hfid : key[prefixSize + 8]? = some fid := by
    rw [hkey]
    simp only [List.append_assoc]
    rw [← List.append_assoc, List.getElem?_append_right (by simp [fieldIndexPrefix, prefixSize])]
    simp [fieldIndexPrefix, prefixSize]
  have hval : (key.drop (prefixSize + 8 + 1)).take fval.length = fval := by
    rw [hkey, List.append_assoc _ fval, List.drop_left' (by simp [fieldIndexPrefix, prefixSize]),
      List.take_left]
  -- The rest is read from the end.
  have hsid : wordAt key (key.length - 2 * 8) = some sid := by
    rw [hlen, hkey, addr]
    exact wordAt_of_append (by simp [fieldIndexPrefix]; omega)
  have hid : wordAt key (key.length - 1 * 8) = some id := by
    rw [hlen, hkey, addr, ← List.append_assoc]
    exact wordAt_end (by simp [fieldIndexPrefix]; omega)
  have hloc : getDocsLocation key = addr sid id := by
    rw [getDocsLocation, hlen, hkey, List.drop_left' (by simp [fieldIndexPrefix]; omega)]
  have hsize : key.length - fieldIndexPrefix.length - 8 - 1 - 2 * 8 = fval.length := by
    rw [hlen]
    simp [fieldIndexPrefix]
    omega
  refine ⟨?_, hloc⟩
  simp [KeyHelper.indexKey, htid, hfid, hsid, hid, hsize, hval]

theorem readBack_fieldValue (t sid id : UInt64) (fid : UInt8) :
    (Key.fieldValue t sid id fid).ReadBack := by
  obtain ⟨key, hkey⟩ : ∃ key, key = (Key.fieldValue t sid id fid).encode := ⟨_, rfl⟩
  rw [Key.ReadBack, ← hkey]
  rw [Key.encode, fieldValueKey, addr] at hkey
  have htid : wordAt key prefixSize = some t := by
    rw [hkey]
    simp only [List.append_assoc]
    exact wordAt_of_append rfl
  have hsid : wordAt key (prefixSize + 8) = some sid := by
    rw [hkey, List.append_assoc, List.append_assoc (serialize sid)]
    exact wordAt_of_append (by simp [fieldValuePrefix, prefixSize])
  have hid : wordAt key (prefixSize + 2 * 8) = some id := by
    rw [hkey, ← List.append_assoc, List.append_assoc _ (serialize id)]
    exact wordAt_of_append (by simp [fieldValuePrefix, prefixSize])
  have hfid : key[prefixSize + 3 * 8]? = some fid := by
    rw [hkey, List.getElem?_append_right (by simp [fieldValuePrefix, prefixSize])]
    simp [fieldValuePrefix, prefixSize]
  refine ⟨?_, hfid⟩
  simp [KeyHelper.fieldValueKey, htid, hsid, hid, hfid]

/-- **Keys are taken apart the way they are put together**: no two records share a key, `Dump` finds
the family of every key, and every reader of that family finds its parts.

`Dump` asks for one prefix after the other, and the readers count their offsets from the front of a
key or from its end, each in its own way. What they find is compared with what the key was made of,
for keys of all kinds and without a condition on ids, names or values. -/
theorem readers_agree :
    (∀ k k' : Key, k.encode = k'.encode → k = k') ∧
      ∀ k : Key, dumpFamily k.encode = some k.kind ∧ k.ReadBack := by
  refine ⟨fun k k' => Key.encode_inj.mp, fun k => ⟨dumpFamily_encode k, ?_⟩⟩
  cases k with
  | sequence => trivial
  | table name => exact List.drop_left' rfl
  | currentSegment t => exact wordAt_end rfl
  | segmentNextID t => exact ⟨wordAt_end rfl, wordAt_end rfl⟩
  | mapping t => exact ⟨wordAt_end rfl, wordAt_end rfl⟩
  | uidIdMapping t uid => exact readBack_uidIdMapping t uid
  | fieldIndex t fid fval sid id => exact readBack_fieldIndex t fid fval sid id
  | fieldValue t sid id fid => exact readBack_fieldValue t sid id fid

/-- What `LoadField` finds: the records of its field, below 128. -/
theorem loadFieldMatches_encode_iff (t sid id : UInt64) (f fid : UInt8) :
    loadFieldMatches (Key.fieldValue t sid id f).encode fid = true ↔ f = fid ∧ fid < 128 := by
  rw [loadFieldMatches, (readBack_fieldValue t sid id f).2, Option.any_some, decide_eq_true_eq]
  have hchar : f.toInt8.toInt = f.toBitVec.toInt := rfl
  have hnat : f.toBitVec.toNat = f.toNat := rfl
  have hlt : f.toNat < 256 := f.toNat_lt
  have hfid : fid.toNat < 256 := fid.toNat_lt
  have h128 : (128 : UInt8).toNat = 128 := rfl
  rw [hchar, BitVec.toInt_eq_toNat_cond, hnat, UInt8.lt_iff_toNat_lt, h128, ← UInt8.toNat_inj]
  split <;> omega

end CxxLab.RocksdbLab
