import CxxLab.RocksdbLab.Schema
import CxxLab.Lib.Run

/-!
# `rocksdb_lab/rocksdb_impl.cpp` — tables of documents

A `RocksDBImpl` is a store and a cache of what it needs to write to it: the next table id, table
names, schemas, and for each table the place the next document goes to, a segment and an offset in
it. `Init` rebuilds the cache from the store.

The private `AddDoc` appends the writes of one document to a batch. *It looks up the old document
in the store, not in the batch.* The public `AddDoc` and `AddDocs` differ in how many documents
they put in a batch, and in that only the first one asks whether its document is built.

No result stands for a failed assertion, or for a read of bytes that are not there.
-/

set_option autoImplicit false

namespace CxxLab.RocksdbLab

open Std CxxLab.Lib

/-! ## `DBCache` -/

structure DBCache where
  tid : UInt64
  segmap : ExtTreeMap UInt64 UInt64
  tnamemap : ExtTreeMap Bytes UInt64
  tidnamemap : ExtTreeMap UInt64 Bytes
  tschemamap : ExtTreeMap Bytes DocSchema
  offset : ExtTreeMap UInt64 UInt64

namespace DBCache

/-- `DBCache::DBCache`. The table id has no value before `SetTid`, the first thing `Init` does. -/
def new : DBCache := ⟨0, ∅, ∅, ∅, ∅, ∅⟩

/-- `DBCache::SetTid`. -/
def setTid (c : DBCache) (tid : UInt64) (table : Option (Bytes × DocSchema)) : DBCache :=
  match table with
  | none => { c with tid := tid }
  | some (tname, schema) => { c with
      tid := tid
      tnamemap := c.tnamemap.insert tname c.tid
      tidnamemap := c.tidnamemap.insert c.tid tname
      tschemamap := c.tschemamap.insert tname schema.copy }

/-- `DBCache::UpdateTableMapping(tid, tname)`. -/
def updateTableMappingName (c : DBCache) (tid : UInt64) (tname : Bytes) : DBCache :=
  { c with tnamemap := c.tnamemap.insert tname tid, tidnamemap := c.tidnamemap.insert tid tname }

/-- `DBCache::UpdateTableMapping(tid, schema)`. A table id without a name gets the empty one. -/
def updateTableMappingSchema (c : DBCache) (tid : UInt64) (schema : DocSchema) : DBCache :=
  let tname := c.tidnamemap.getD tid []
  { c with
    tidnamemap := c.tidnamemap.insert tid tname
    tschemamap := c.tschemamap.insert tname schema.copy }

/-- `DBCache::UpdateSegMap`. -/
def updateSegMap (c : DBCache) (tid sid : UInt64) : DBCache :=
  { c with segmap := c.segmap.insert tid sid }

/-- `DBCache::UpdateTidOffset`. -/
def updateTidOffset (c : DBCache) (tid offset : UInt64) : DBCache :=
  { c with offset := c.offset.insert tid offset }

/-- `DBCache::GetTidOffset`. A table without an offset gets 0. -/
def getTidOffset (c : DBCache) (tid : UInt64) : UInt64 × DBCache :=
  let offset := c.offset.getD tid 0
  (offset, { c with offset := c.offset.insert tid offset })

/-- `DBCache::GetSegId`. -/
def getSegId (c : DBCache) (tid : UInt64) : Option UInt64 := c.segmap[tid]?

/-- `DBCache::GetSchema`. -/
def getSchema (c : DBCache) (tname : Bytes) : Option DocSchema := c.tschemamap[tname]?

/-- `DBCache::GetTidByTname`. -/
def getTidByTname (c : DBCache) (tname : Bytes) : Option UInt64 := c.tnamemap[tname]?

end DBCache

/-! ## The writes of a document -/

/-- `DBTableSegmentSize`. -/
def segmentSize : UInt64 := 50000

/-- The parameters the private `AddDoc` changes. -/
structure Cursor where
  wb : WriteBatch
  sid : UInt64
  offset : UInt64
  hasUpdate : Bool

/-- The local variables of its loop. -/
structure FieldState where
  addrToDelete : Bytes
  offsetUsed : UInt64
  hasNew : Bool
  wb : WriteBatch

/-- The lookup in the block for `fid == 0`: a document of the current segment keeps its place, one of
another segment is deleted there. -/
def findUid (db : Store) (sid : UInt64) (key : Bytes) (st : FieldState) : Option FieldState :=
  match db[key]? with
  | none => some st
  | some address => do
    let sidUsed ← deserialize address
    if sidUsed ≠ sid then
      return { st with addrToDelete := address, wb := st.wb ++ [.delete key] }
    else
      let offsetUsed ← deserialize (address.drop 8)
      return { st with addrToDelete := [], offsetUsed := offsetUsed, hasNew := false }

/-- The block for `fid == 0`. -/
def placeUid (db : Store) (tid sid : UInt64) (uid : Bytes) (st : FieldState) : Option FieldState := do
  let key := uidIdMappingKey tid uid
  let st ← findUid db sid key st
  return { st with wb := st.wb ++ [.put key (addr sid st.offsetUsed)] }

/-- The part of the block for a field that deletes the old value, which must be there. -/
def deleteField (db : Store) (tid : UInt64) (fid : UInt8) (st : FieldState) : Option FieldState :=
  if st.addrToDelete = [] then some st
  else do
    let fieldKey := fieldValueKey tid st.addrToDelete fid
    let fval ← db[fieldKey]?
    return { st with
      wb := st.wb ++ [.delete fieldKey, .delete (fieldIndexKey tid fid fval st.addrToDelete)] }

/-- The block for a field. -/
def writeField (db : Store) (tid sid : UInt64) (fid : UInt8) (v : Bytes) (st : FieldState) :
    Option FieldState := do
  let st ← deleteField db tid fid st
  let address := addr sid st.offsetUsed
  return { st with
    wb := st.wb ++
      [.put (fieldValueKey tid address fid) v, .put (fieldIndexKey tid fid v address) []] }

/-- One turn of the loop over the fields. -/
def addField (db : Store) (tid sid : UInt64) (st : FieldState) (field : UInt8 × Bytes) :
    Option FieldState := do
  let st ← if field.1 = 0 then placeUid db tid sid field.2 st else some st
  writeField db tid sid field.1 field.2 st

/-- What follows the loop: a new document moves the cursor on. -/
def finishDoc (tid : UInt64) (st : FieldState) (c : Cursor) : Cursor :=
  let c := { c with wb := st.wb }
  let c :=
    if st.hasNew then
      if c.offset + 1 ≥ segmentSize then
        { wb := c.wb ++ [.put (currentSegmentKey tid) (serialize (c.sid + 1))]
          sid := c.sid + 1
          offset := 0
          hasUpdate := true }
      else { c with offset := c.offset + 1 }
    else c
  { c with wb := c.wb ++ [.put (segmentNextIDKey tid) (addr c.sid c.offset)] }

/-- `RocksDBImpl::AddDoc` with a `WriteBatch`. -/
def addDocTo (db : Store) (tid : UInt64) (c : Cursor) (doc : Doc) : Option Cursor := do
  let docSerialized ← doc.serialize
  let st ← docSerialized.toList.foldlM (addField db tid c.sid) ⟨[], c.offset, true, c.wb⟩
  return finishDoc tid st c

/-! ## The calls -/

inductive Status where
  | ok
  | notFound
  | invalidArgument
  | ioError
  deriving DecidableEq

structure RocksDBImpl where
  db : Store
  cache : DBCache

namespace RocksDBImpl

/-- What the public `AddDoc` and `AddDocs` have in common. `written` is the outcome of
`db_->Write`. -/
def addBatch (impl : RocksDBImpl) (tableName : Bytes) (docs : List Doc) (written : Bool) :
    Option (Status × RocksDBImpl) :=
  match impl.cache.getSchema tableName with
  | none => some (.notFound, impl)
  | some _ =>
    match impl.cache.getTidByTname tableName with
    | none => some (.notFound, impl)
    | some tid =>
      match impl.cache.getSegId tid with
      | none => some (.notFound, impl)
      | some sid => do
        let (offset, cache) := impl.cache.getTidOffset tid
        let c ← docs.foldlM (addDocTo impl.db tid) ⟨[], sid, offset, false⟩
        if written then
          let cache := if c.hasUpdate then cache.updateSegMap tid c.sid else cache
          return (.ok, ⟨impl.db.apply c.wb, cache.updateTidOffset tid c.offset⟩)
        else return (.ioError, { impl with cache := cache })

/-- `RocksDBImpl::AddDocs`. -/
def addDocs (impl : RocksDBImpl) (tableName : Bytes) (docs : List Doc) (written : Bool) :
    Option (Status × RocksDBImpl) :=
  impl.addBatch tableName docs written

/-- `RocksDBImpl::AddDoc`. -/
def addDoc (impl : RocksDBImpl) (tableName : Bytes) (doc : Doc) (written : Bool) :
    Option (Status × RocksDBImpl) :=
  if (impl.cache.getSchema tableName).isSome ∧ doc.fixed = false then some (.invalidArgument, impl)
  else impl.addBatch tableName [doc] written

/-- `RocksDBImpl::CreateTable`. It asserts that its write succeeds. -/
def createTable (impl : RocksDBImpl) (tableName : Bytes) (schema : DocSchema) :
    Status × RocksDBImpl :=
  match impl.db[tableKey tableName]? with
  | some _ => (.ok, impl)
  | none =>
    if schema.fixed = false then (.invalidArgument, impl)
    else
      let tid := impl.cache.tid
      let nextTid := tid + 1
      let wb : WriteBatch :=
        [.put tableSequenceKey (serialize nextTid),
          .put (tableKey tableName) (serialize tid),
          .put (currentSegmentKey tid) (serialize 0),
          .put (segmentNextIDKey tid) (addr 0 0),
          .put (mappingKey tid) schema.serialize]
      let cache := (impl.cache.updateSegMap tid 0).updateTidOffset tid 0
      let cache := cache.setTid nextTid (some (tableName, schema))
      (.ok, ⟨impl.db.apply wb, cache.updateTableMappingSchema tid schema⟩)

/-! ## `Init` -/

/-- One turn of the loop over the table names. -/
def loadName (cache : DBCache) (kv : Bytes × Bytes) : Option DBCache := do
  let tid ← deserialize kv.2
  return cache.updateTableMappingName tid (kv.1.drop tablePrefix.length)

/-- One turn of the loop over the next places. -/
def loadSegment (cache : DBCache) (kv : Bytes × Bytes) : Option DBCache := do
  let tid ← deserialize (kv.1.drop mappingPrefix.length)
  let sid ← deserialize kv.2
  let id ← deserialize (kv.2.drop 8)
  return (cache.updateSegMap tid sid).updateTidOffset tid id

/-- One turn of the loop over the schemas. -/
def loadSchema (cache : DBCache) (kv : Bytes × Bytes) : Option DBCache := do
  let schema ← DocSchema.deserialize kv.2
  let tid ← deserialize (kv.1.drop mappingPrefix.length)
  return cache.updateTableMappingSchema tid schema

/-- `RocksDBImpl::Init`. In a new store the sequence is set to a `long` 0, byte for byte. -/
def init (db : Store) : Option RocksDBImpl :=
  match db[tableSequenceKey]? with
  | none =>
    some ⟨KVStore.write db (.put tableSequenceKey (List.replicate 8 0)), DBCache.new.setTid 0 none⟩
  | some seq => do
    let tid ← deserialize seq
    let cache := DBCache.new.setTid tid none
    let names := (db.scan tablePrefix none).takeWhile fun kv => tablePrefix.isPrefixOf kv.1
    let cache ← names.foldlM loadName cache
    let cache ← (db.scan (segmentNextIDKey 0) (some (segmentNextIDPrefix ++ seq))).foldlM
      loadSegment cache
    let cache ← (db.scan (mappingKey 0) (some (mappingPrefix ++ seq))).foldlM loadSchema cache
    return ⟨db, cache⟩

/-! ## Runs -/

/-- A call, and for a batch of documents the outcome of its write. -/
inductive Op where
  | createTable (tableName : Bytes) (schema : DocSchema)
  | addDoc (tableName : Bytes) (doc : Doc) (written : Bool)
  | addDocs (tableName : Bytes) (docs : List Doc) (written : Bool)

def step (impl : RocksDBImpl) : Op → Option RocksDBImpl
  | .createTable tableName schema => some (impl.createTable tableName schema).2
  | .addDoc tableName doc written => (impl.addDoc tableName doc written).map Prod.snd
  | .addDocs tableName docs written => (impl.addDocs tableName docs written).map Prod.snd

/-- What `Init` makes of a new store. -/
def opened : RocksDBImpl :=
  ⟨KVStore.write ∅ (.put tableSequenceKey (List.replicate 8 0)), DBCache.new.setTid 0 none⟩

example : init ∅ = some opened := rfl

end RocksDBImpl

end CxxLab.RocksdbLab
