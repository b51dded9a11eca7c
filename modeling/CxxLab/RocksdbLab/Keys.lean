import CxxLab.Lib.BigEndian
import CxxLab.Lib.KVStore

/-!
# `rocksdb_lab/rocksdb_util.h` — the records of the store

Everything a `RocksDBImpl` knows is in one RocksDB key space, split into families by a three-byte
prefix. Numbers in keys and values are big-endian, so that the default comparator, which is
byte-wise, puts the tables of a family in the order of their ids.

The functions below build keys the way the code does, by appending bytes. `Key` is the reading of
these bytes: `Key.encode` is injective, so no two records of the program can ever share a key.
-/

set_option autoImplicit false

namespace CxxLab.RocksdbLab

open Std CxxLab.Lib

abbrev Bytes := List UInt8

/-- `rocksdb::DB`, opened with the default comparator. -/
abbrev Store := KVStore Bytes Bytes

abbrev WriteBatch := List (Write Bytes Bytes)

/-! ## `Serializer` -/

/-- `Serializer::Serialize` of a `uint64_t`. -/
def serialize (x : UInt64) : Bytes := BigEndian.toBytes 8 x.toNat

/-- `Serializer::Deserialize` of a `uint64_t`, which reads eight bytes. There is no result where
that is past the end. -/
def deserialize (bs : Bytes) : Option UInt64 :=
  if 8 ≤ bs.length then some (UInt64.ofNat (BigEndian.ofBytes (bs.take 8))) else none

@[simp] theorem length_serialize (x : UInt64) : (serialize x).length = 8 :=
  BigEndian.length_toBytes _ _

theorem toNat_lt_pow (x : UInt64) : x.toNat < 256 ^ 8 := x.toNat_lt

theorem deserialize_append (x : UInt64) (bs : Bytes) : deserialize (serialize x ++ bs) = some x := by
  have htake : (serialize x ++ bs).take 8 = serialize x := by
    rw [List.take_append_of_le_length (by simp), List.take_of_length_le (by simp)]
  have hlen : 8 ≤ (serialize x ++ bs).length := by simp
  rw [deserialize, if_pos hlen, htake, serialize, BigEndian.ofBytes_toBytes_of_lt (toNat_lt_pow x),
    UInt64.ofNat_toNat]

@[simp] theorem deserialize_serialize (x : UInt64) : deserialize (serialize x) = some x := by
  have := deserialize_append x []
  rwa [List.append_nil] at this

theorem serialize_inj {x y : UInt64} : serialize x = serialize y ↔ x = y := by
  refine ⟨fun h => ?_, congrArg serialize⟩
  have := congrArg deserialize h
  rw [deserialize_serialize, deserialize_serialize] at this
  exact Option.some_inj.mp this

/-- **Serialized numbers are in the order of the numbers.** -/
theorem compare_serialize (x y : UInt64) : compare (serialize x) (serialize y) = compare x y := by
  rw [serialize, serialize, BigEndian.compare_toBytes (toNat_lt_pow x) (toNat_lt_pow y)]
  rcases Nat.lt_trichotomy x.toNat y.toNat with hlt | heq | hgt
  · rw [Std.compare_eq_lt.mpr hlt, Std.compare_eq_lt.mpr (UInt64.lt_iff_toNat_lt.mpr hlt)]
  · cases UInt64.toNat_inj.mp heq
    rw [Std.compare_self, Std.compare_self]
  · rw [Std.compare_eq_gt.mpr hgt, Std.compare_eq_gt.mpr (UInt64.lt_iff_toNat_lt.mpr hgt)]

/-- A segment and an offset in it. -/
abbrev Location := UInt64 × UInt64

/-- `$sid$id`, where a document is. -/
def addr (sid id : UInt64) : Bytes := serialize sid ++ serialize id

@[simp] theorem length_addr (sid id : UInt64) : (addr sid id).length = 16 := by simp [addr]

theorem addr_inj {s o s' o' : UInt64} : addr s o = addr s' o' ↔ s = s' ∧ o = o' := by
  refine ⟨fun h => ?_, by rintro ⟨rfl, rfl⟩; rfl⟩
  obtain ⟨h₁, h₂⟩ := List.append_inj h (by simp)
  exact ⟨serialize_inj.mp h₁, serialize_inj.mp h₂⟩

theorem deserialize_addr (s o : UInt64) : deserialize (addr s o) = some s := deserialize_append s _

theorem deserialize_drop_addr (s o : UInt64) : deserialize ((addr s o).drop 8) = some o := by
  rw [addr, List.drop_left' (length_serialize s), deserialize_serialize]

theorem addr_ne_nil (s o : UInt64) : addr s o ≠ [] := by
  intro h
  have := congrArg List.length h
  simp at this

/-! ## Key families -/

/-- `"TSK"`: the next table id. -/
def tableSequenceKey : Bytes := [84, 83, 75]

/-- `"TTP"`: table name to id. -/
def tablePrefix : Bytes := [84, 84, 80]

/-- `"TSP"`: the current segment of a table. -/
def currentSegmentPrefix : Bytes := [84, 83, 80]

/-- `"TSS"`: the next free place of a table. -/
def segmentNextIDPrefix : Bytes := [84, 83, 83]

/-- `"TID"`: where the document of a uid is. -/
def uidIdMappingPrefix : Bytes := [84, 73, 68]

/-- `"TMP"`: the schema of a table. -/
def mappingPrefix : Bytes := [84, 77, 80]

/-- `"TFI"`: the index. -/
def fieldIndexPrefix : Bytes := [84, 70, 73]

/-- `"TFV"`: the values. -/
def fieldValuePrefix : Bytes := [84, 70, 86]

/-- `TableKey`. -/
def tableKey (name : Bytes) : Bytes := tablePrefix ++ name

def currentSegmentKey (tid : UInt64) : Bytes := currentSegmentPrefix ++ serialize tid

def segmentNextIDKey (tid : UInt64) : Bytes := segmentNextIDPrefix ++ serialize tid

def uidIdMappingKey (tid : UInt64) (uid : Bytes) : Bytes :=
  uidIdMappingPrefix ++ serialize tid ++ uid

def mappingKey (tid : UInt64) : Bytes := mappingPrefix ++ serialize tid

/-- `$Prefix$tid$fid$fval$sid$id`. -/
def fieldIndexKey (tid : UInt64) (fid : UInt8) (fval address : Bytes) : Bytes :=
  fieldIndexPrefix ++ serialize tid ++ [fid] ++ fval ++ address

/-- `$Prefix$tid$sid$id$fid`. -/
def fieldValueKey (tid : UInt64) (address : Bytes) (fid : UInt8) : Bytes :=
  fieldValuePrefix ++ serialize tid ++ address ++ [fid]

/-- A key, read. -/
inductive Key where
  | sequence
  | table (name : Bytes)
  | currentSegment (tid : UInt64)
  | segmentNextID (tid : UInt64)
  | uidIdMapping (tid : UInt64) (uid : Bytes)
  | mapping (tid : UInt64)
  | fieldIndex (tid : UInt64) (fid : UInt8) (fval : Bytes) (sid id : UInt64)
  | fieldValue (tid sid id : UInt64) (fid : UInt8)
  deriving DecidableEq

namespace Key

def encode : Key → Bytes
  | sequence => tableSequenceKey
  | table name => tableKey name
  | currentSegment tid => currentSegmentKey tid
  | segmentNextID tid => segmentNextIDKey tid
  | uidIdMapping tid uid => uidIdMappingKey tid uid
  | mapping tid => mappingKey tid
  | fieldIndex tid fid fval sid id => fieldIndexKey tid fid fval (addr sid id)
  | fieldValue tid sid id fid => fieldValueKey tid (addr sid id) fid

/-- The first three bytes. -/
def family : Key → Bytes
  | sequence => tableSequenceKey
  | table _ => tablePrefix
  | currentSegment _ => currentSegmentPrefix
  | segmentNextID _ => segmentNextIDPrefix
  | uidIdMapping _ _ => uidIdMappingPrefix
  | mapping _ => mappingPrefix
  | fieldIndex _ _ _ _ _ => fieldIndexPrefix
  | fieldValue _ _ _ _ => fieldValuePrefix

theorem take_encode (k : Key) : k.encode.take 3 = k.family := by
  cases k <;> rfl

theorem family_eq {family : Bytes} (hlen : family.length = 3) {k : Key} (h : family <+: k.encode) :
    k.family = family := by
  obtain ⟨rest, hrest⟩ := h
  rw [← take_encode, ← hrest, List.take_left' hlen]

/-- **No two records share a key.** -/
theorem encode_inj {k k' : Key} : k.encode = k'.encode ↔ k = k' := by
  refine ⟨fun h => ?_, congrArg encode⟩
  have hfamily : k.family = k'.family := by rw [← take_encode, ← take_encode, h]
  cases k <;> cases k' <;>
    simp [family, tableSequenceKey, tablePrefix, currentSegmentPrefix, segmentNextIDPrefix,
      uidIdMappingPrefix, mappingPrefix, fieldIndexPrefix, fieldValuePrefix] at hfamily
  case sequence.sequence => rfl
  case table.table name name' => rw [List.append_cancel_left h]
  case currentSegment.currentSegment t t' =>
    rw [serialize_inj.mp (List.append_cancel_left h)]
  case segmentNextID.segmentNextID t t' =>
    rw [serialize_inj.mp (List.append_cancel_left h)]
  case mapping.mapping t t' =>
    rw [serialize_inj.mp (List.append_cancel_left h)]
  case uidIdMapping.uidIdMapping t u t' u' =>
    obtain ⟨htid, rfl⟩ := List.append_inj h (by simp)
    rw [serialize_inj.mp (List.append_cancel_left htid)]
  case fieldIndex.fieldIndex t f v s o t' f' v' s' o' =>
    -- The value may have any length; the address behind it has sixteen bytes.
    obtain ⟨hfront, haddr⟩ := List.append_inj' h (by simp)
    obtain ⟨hhead, rfl⟩ := List.append_inj hfront (by simp)
    obtain ⟨htid, hfid⟩ := List.append_inj hhead (by simp)
    obtain ⟨rfl, rfl⟩ := addr_inj.mp haddr
    cases hfid
    rw [serialize_inj.mp (List.append_cancel_left htid)]
  case fieldValue.fieldValue t s o f t' s' o' f' =>
    obtain ⟨hfront, hfid⟩ := List.append_inj h (by simp)
    obtain ⟨htid, haddr⟩ := List.append_inj hfront (by simp)
    obtain ⟨rfl, rfl⟩ := addr_inj.mp haddr
    cases hfid
    rw [serialize_inj.mp (List.append_cancel_left htid)]

/-- A key between two bounds that begin like records of values of a table is one, and begins so too. -/
theorem exists_fieldValue {k : Key} {tid : UInt64} {p a b : Bytes}
    (hlow : (compare (fieldValuePrefix ++ serialize tid ++ p ++ a) k.encode).isLE)
    (hhigh : compare k.encode (fieldValuePrefix ++ serialize tid ++ p ++ b) = .lt) :
    ∃ s o f, k = .fieldValue tid s o f ∧ p <+: addr s o ++ [f] := by
  have hbegin := isPrefix_of_between hlow hhigh
  have hfamily : k.family = fieldValuePrefix :=
    family_eq rfl (List.IsPrefix.trans ⟨_, (List.append_assoc _ _ _).symm⟩ hbegin)
  obtain ⟨rest, hrest⟩ := hbegin
  cases k <;> try cases hfamily
  case fieldValue.refl t s o f =>
    simp only [encode, fieldValueKey, List.append_assoc] at hrest
    obtain ⟨htid, haddr⟩ := List.append_inj (List.append_cancel_left hrest) (by simp)
    cases serialize_inj.mp htid
    exact ⟨s, o, f, rfl, rest, haddr⟩

end Key

/-! ## Reading records -/

namespace Store

/-- The record of a key. -/
def read (S : Store) (k : Key) : Option Bytes := S[k.encode]?

theorem read_put (S : Store) (k k' : Key) (v : Bytes) :
    Store.read (KVStore.write S (.put k.encode v)) k' = if k' = k then some v else S.read k' := by
  simp only [read, KVStore.getElem?_put, Key.encode_inj]

theorem read_delete (S : Store) (k k' : Key) :
    Store.read (KVStore.write S (.delete k.encode)) k' = if k' = k then none else S.read k' := by
  simp only [read, KVStore.getElem?_delete, Key.encode_inj]

end Store

end CxxLab.RocksdbLab
