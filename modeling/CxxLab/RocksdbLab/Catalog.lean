import CxxLab.RocksdbLab.Impl

/-!
# The cache and the store agree

`Catalog` is what a `RocksDBImpl` keeps between calls, for whatever documents it is given: the
cache is the decoded catalogue records of the store, table names and ids are in bijection, and
every key of the store is the encoding of a record.

Documents do not come into it. `DocWrite` says why: the loop over the fields of a document writes
to three families only, so all a document does to the catalogue is to move the cursor.
-/

set_option autoImplicit false

namespace CxxLab.RocksdbLab

open Std CxxLab.Lib

/-! ## The invariant -/

/-- **The cache agrees with the store.** -/
structure Catalog (impl : RocksDBImpl) : Prop where
  sequence : impl.db.read .sequence = some (serialize impl.cache.tid)
  names : ∀ name : Bytes, impl.db.read (.table name) = impl.cache.tnamemap[name]?.map serialize
  inverse : ∀ (name : Bytes) (tid : UInt64),
    impl.cache.tnamemap[name]? = some tid ↔ impl.cache.tidnamemap[tid]? = some name
  ids : ∀ tid, tid ∈ impl.cache.tidnamemap ↔ tid < impl.cache.tid
  segments : ∀ tid, impl.db.read (.currentSegment tid) = impl.cache.segmap[tid]?.map serialize
  places : ∀ tid, impl.db.read (.segmentNextID tid) =
    impl.cache.segmap[tid]?.bind fun s => impl.cache.offset[tid]?.map fun o => addr s o
  segmentIds : ∀ tid, tid ∈ impl.cache.segmap ↔ tid < impl.cache.tid
  offsetIds : ∀ tid, tid ∈ impl.cache.offset ↔ tid < impl.cache.tid
  schemas : ∀ name, name ∈ impl.cache.tschemamap ↔ name ∈ impl.cache.tnamemap
  mappings : ∀ tid, impl.db.read (.mapping tid) =
    impl.cache.tidnamemap[tid]?.bind fun name =>
      impl.cache.tschemamap[name]?.map DocSchema.serialize
  built : ∀ (name : Bytes) s, impl.cache.tschemamap[name]? = some s → s.fixed = true
  keys : ∀ b ∈ impl.db, ∃ k : Key, b = k.encode

/-- A table with its id, schema and cursor. -/
structure Table (impl : RocksDBImpl) (name : Bytes) (tid : UInt64) (schema : DocSchema)
    (sid offset : UInt64) : Prop where
  id : impl.cache.tnamemap[name]? = some tid
  schema : impl.cache.tschemamap[name]? = some schema
  segment : impl.cache.segmap[tid]? = some sid
  offset : impl.cache.offset[tid]? = some offset

/-- What of the catalogue holds even when the table ids start over: the records of a table are what
the cache has for it. -/
structure Registry (impl : RocksDBImpl) : Prop where
  names : ∀ name : Bytes, impl.db.read (.table name) = impl.cache.tnamemap[name]?.map serialize
  segments : ∀ tid, impl.db.read (.currentSegment tid) = impl.cache.segmap[tid]?.map serialize
  places : ∀ tid, impl.db.read (.segmentNextID tid) =
    impl.cache.segmap[tid]?.bind fun s => impl.cache.offset[tid]?.map fun o => addr s o
  known : ∀ (name : Bytes) tid, impl.cache.tnamemap[name]? = some tid →
    tid ∈ impl.cache.segmap ∧ tid ∈ impl.cache.offset
  keys : ∀ b ∈ impl.db, ∃ k : Key, b = k.encode

namespace Catalog

variable {impl : RocksDBImpl}

theorem name_lt (h : Catalog impl) {name : Bytes} {tid : UInt64}
    (hname : impl.cache.tnamemap[name]? = some tid) : tid < impl.cache.tid :=
  (h.ids tid).mp (mem_iff_exists.mpr ⟨name, (h.inverse name tid).mp hname⟩)

theorem registry (h : Catalog impl) : Registry impl where
  names := h.names
  segments := h.segments
  places := h.places
  known _ tid hname := ⟨(h.segmentIds tid).mpr (h.name_lt hname), (h.offsetIds tid).mpr (h.name_lt hname)⟩
  keys := h.keys

theorem name_inj (h : Catalog impl) {name name' : Bytes} {tid : UInt64}
    (hname : impl.cache.tnamemap[name]? = some tid)
    (hname' : impl.cache.tnamemap[name']? = some tid) : name = name' := by
  rw [h.inverse] at hname hname'
  exact Option.some_inj.mp (hname.symm.trans hname')

theorem read_table_eq_none (h : Catalog impl) {name : Bytes} :
    impl.db.read (.table name) = none ↔ name ∉ impl.cache.tnamemap := by
  rw [h.names, Option.map_eq_none_iff, not_mem_iff]

theorem table (h : Catalog impl) {name : Bytes} {schema : DocSchema}
    (hschema : impl.cache.tschemamap[name]? = some schema) :
    ∃ tid sid offset, Table impl name tid schema sid offset := by
  obtain ⟨tid, hid⟩ := mem_iff_exists.mp ((h.schemas name).mp (mem_iff_exists.mpr ⟨schema, hschema⟩))
  obtain ⟨sid, hsid⟩ := mem_iff_exists.mp ((h.segmentIds tid).mpr (h.name_lt hid))
  obtain ⟨offset, hoffset⟩ := mem_iff_exists.mp ((h.offsetIds tid).mpr (h.name_lt hid))
  exact ⟨tid, sid, offset, hid, hschema, hsid, hoffset⟩

end Catalog

/-! ## Documents and the catalogue -/

/-- The families of documents. -/
def Key.ofDoc : Key → Bool
  | .uidIdMapping _ _ => true
  | .fieldIndex _ _ _ _ _ => true
  | .fieldValue _ _ _ _ => true
  | _ => false

/-- A write to one of the families of documents. What is put there has a proper key. -/
structure DocWrite (w : Write Bytes Bytes) : Prop where
  family : w.key.take 3 = uidIdMappingPrefix ∨ w.key.take 3 = fieldIndexPrefix ∨
    w.key.take 3 = fieldValuePrefix
  key : ∀ b v, w = .put b v → ∃ k : Key, b = k.encode

theorem DocWrite.ne {w : Write Bytes Bytes} (h : DocWrite w) {k : Key} (hk : k.ofDoc = false) :
    k.encode ≠ w.key := by
  intro heq
  have hfamily := h.family
  rw [← heq, Key.take_encode] at hfamily
  cases k <;> simp [Key.ofDoc, Key.family, tableSequenceKey, tablePrefix, currentSegmentPrefix,
    segmentNextIDPrefix, uidIdMappingPrefix, mappingPrefix, fieldIndexPrefix, fieldValuePrefix]
    at hk hfamily

/-- `st'` has appended writes of documents only. -/
def Extends (wb wb' : WriteBatch) : Prop := ∃ ws, wb' = wb ++ ws ∧ ∀ w ∈ ws, DocWrite w

theorem Extends.refl (wb : WriteBatch) : Extends wb wb := ⟨[], by simp, by simp⟩

theorem Extends.trans {wb wb' wb'' : WriteBatch} (h : Extends wb wb') (h' : Extends wb' wb'') :
    Extends wb wb'' := by
  obtain ⟨ws, rfl, hws⟩ := h
  obtain ⟨ws', rfl, hws'⟩ := h'
  refine ⟨ws ++ ws', by simp, fun w hw => ?_⟩
  rcases List.mem_append.mp hw with hw | hw
  · exact hws w hw
  · exact hws' w hw

section Fields

variable {db : Store} {tid sid : UInt64} {st st' : FieldState}

theorem placeUid_extends {uid : Bytes} (h : placeUid db tid sid uid st = some st') :
    Extends st.wb st'.wb := by
  have hfamily : (uidIdMappingKey tid uid).take 3 = uidIdMappingPrefix := rfl
  have hput : ∀ v, DocWrite (.put (uidIdMappingKey tid uid) v) := fun v =>
    ⟨.inl hfamily, fun b _ heq => ⟨.uidIdMapping tid uid, by cases heq; rfl⟩⟩
  have hdelete : DocWrite (.delete (uidIdMappingKey tid uid)) :=
    ⟨.inl hfamily, fun _ _ heq => by cases heq⟩
  simp only [placeUid, Option.bind_eq_bind, Option.bind_eq_some_iff, Option.pure_def,
    Option.some.injEq] at h
  obtain ⟨st₁, hfind, rfl⟩ := h
  have hfirst : Extends st.wb st₁.wb := by
    unfold findUid at hfind
    split at hfind
    · cases hfind
      exact .refl _
    · simp only [Option.bind_eq_bind, Option.bind_eq_some_iff, Option.pure_def] at hfind
      obtain ⟨sidUsed, -, hcase⟩ := hfind
      split at hcase
      · cases hcase
        exact ⟨[.delete _], rfl, by simpa using hdelete⟩
      · obtain ⟨offsetUsed, -, hcase⟩ := Option.bind_eq_some_iff.mp hcase
        cases hcase
        exact .refl _
  exact hfirst.trans ⟨[.put _ _], rfl, by simpa using hput _⟩

theorem writeField_extends {fid : UInt8} {v : Bytes}
    (h : writeField db tid sid fid v st = some st') : Extends st.wb st'.wb := by
  simp only [writeField, Option.bind_eq_bind, Option.bind_eq_some_iff, Option.pure_def,
    Option.some.injEq] at h
  obtain ⟨st₁, hdelete, rfl⟩ := h
  have hfirst : Extends st.wb st₁.wb := by
    unfold deleteField at hdelete
    split at hdelete
    · cases hdelete
      exact .refl _
    · simp only [Option.bind_eq_bind, Option.bind_eq_some_iff, Option.pure_def,
        Option.some.injEq] at hdelete
      obtain ⟨fval, -, rfl⟩ := hdelete
      refine ⟨_, rfl, fun w hw => ?_⟩
      rcases List.mem_cons.mp hw with rfl | hw
      · exact ⟨.inr (.inr rfl), fun _ _ heq => by cases heq⟩
      · rw [List.mem_singleton.mp hw]
        exact ⟨.inr (.inl rfl), fun _ _ heq => by cases heq⟩
  refine hfirst.trans ⟨_, rfl, fun w hw => ?_⟩
  rcases List.mem_cons.mp hw with rfl | hw
  · exact ⟨.inr (.inr rfl), fun b _ heq =>
      ⟨.fieldValue tid sid st₁.offsetUsed fid, by cases heq; rfl⟩⟩
  · rw [List.mem_singleton.mp hw]
    exact ⟨.inr (.inl rfl), fun b _ heq =>
      ⟨.fieldIndex tid fid v sid st₁.offsetUsed, by cases heq; rfl⟩⟩

theorem foldlM_addField_extends : ∀ {fields : List (UInt8 × Bytes)} {st : FieldState},
    fields.foldlM (addField db tid sid) st = some st' → Extends st.wb st'.wb := by
  intro fields
  induction fields with
  | nil =>
    intro st h
    cases h
    exact .refl _
  | cons f fields ih =>
    intro st h
    rw [List.foldlM_cons, Option.bind_eq_bind, Option.bind_eq_some_iff] at h
    obtain ⟨st₂, hfield, hrest⟩ := h
    refine Extends.trans ?_ (ih hrest)
    unfold addField at hfield
    split at hfield
    · obtain ⟨st₁, huid, hwrite⟩ := Option.bind_eq_some_iff.mp hfield
      exact (placeUid_extends huid).trans (writeField_extends hwrite)
    · exact writeField_extends hfield

end Fields

/-- What a batch has done to the catalogue, when it is applied to `T` with the cursor at `sid₀`. -/
structure Cursor.Sound (T : Store) (tid sid₀ : UInt64) (c : Cursor) : Prop where
  frame : ∀ k : Key, k.ofDoc = false → k ≠ .currentSegment tid → k ≠ .segmentNextID tid →
    Store.read (T.apply c.wb) k = T.read k
  segment : Store.read (T.apply c.wb) (.currentSegment tid) =
    if c.hasUpdate then some (serialize c.sid) else T.read (.currentSegment tid)
  stays : c.hasUpdate = false → c.sid = sid₀
  place : Store.read (T.apply c.wb) (.segmentNextID tid) = some (addr c.sid c.offset)
  keys : ∀ b v, Write.put b v ∈ c.wb → ∃ k : Key, b = k.encode

section Batches

variable {T db : Store} {tid sid₀ : UInt64} {c c' : Cursor}

theorem read_put_one (U : Store) (k k' : Key) (v : Bytes) :
    Store.read (U.apply [.put k.encode v]) k' = if k' = k then some v else U.read k' :=
  Store.read_put U k k' v

/-- The last write of a document records the cursor. -/
theorem Cursor.Sound.record
    (frame : ∀ k : Key, k.ofDoc = false → k ≠ .currentSegment tid → k ≠ .segmentNextID tid →
      Store.read (T.apply c.wb) k = T.read k)
    (segment : Store.read (T.apply c.wb) (.currentSegment tid) =
      if c.hasUpdate then some (serialize c.sid) else T.read (.currentSegment tid))
    (stays : c.hasUpdate = false → c.sid = sid₀)
    (keys : ∀ b v, Write.put b v ∈ c.wb → ∃ k : Key, b = k.encode) :
    Cursor.Sound T tid sid₀
      { c with wb := c.wb ++ [.put (segmentNextIDKey tid) (addr c.sid c.offset)] } := by
  have hnext : segmentNextIDKey tid = (Key.segmentNextID tid).encode := rfl
  constructor
  · intro k hk hk₁ hk₂
    rw [KVStore.apply_append, hnext, read_put_one, if_neg hk₂]
    exact frame k hk hk₁ hk₂
  · rw [KVStore.apply_append, hnext, read_put_one, if_neg (by simp)]
    exact segment
  · exact stays
  · rw [KVStore.apply_append, hnext, read_put_one, if_pos rfl]
  · intro b v hmem
    rcases List.mem_append.mp hmem with hmem | hmem
    · exact keys b v hmem
    · cases List.mem_singleton.mp hmem
      exact ⟨_, hnext⟩

/-- The end of a document keeps the cursor and the records about it together. -/
theorem Cursor.Sound.finishDoc {st : FieldState} (h : c.Sound T tid sid₀)
    (hst : Extends c.wb st.wb) : (finishDoc tid st c).Sound T tid sid₀ := by
  obtain ⟨ws, hwb, hws⟩ := hst
  have hread : ∀ k : Key, k.ofDoc = false →
      Store.read (T.apply st.wb) k = Store.read (T.apply c.wb) k := by
    intro k hk
    rw [hwb, KVStore.apply_append]
    exact KVStore.getElem?_apply_of_ne (fun w hw => (hws w hw).ne hk) _
  have hkeys : ∀ b v, Write.put b v ∈ st.wb → ∃ k : Key, b = k.encode := by
    intro b v hput
    rw [hwb] at hput
    rcases List.mem_append.mp hput with hput | hput
    · exact h.keys b v hput
    · exact (hws _ hput).key b v rfl
  have hcurrent : currentSegmentKey tid = (Key.currentSegment tid).encode := rfl
  have hsame : ∀ offset, Cursor.Sound T tid sid₀ { c with
      wb := st.wb ++ [.put (segmentNextIDKey tid) (addr c.sid offset)], offset := offset } := by
    intro offset
    refine Cursor.Sound.record (c := { c with wb := st.wb, offset := offset })
      (fun k hk hk₁ hk₂ => (hread k hk).trans (h.frame k hk hk₁ hk₂)) ?_ h.stays hkeys
    exact (hread _ rfl).trans h.segment
  unfold RocksdbLab.finishDoc
  by_cases hnew : st.hasNew = true
  · by_cases hroll : c.offset + 1 ≥ segmentSize
    · simp only [hnew, hroll, if_true]
      refine Cursor.Sound.record (c := ⟨st.wb ++ [.put _ _], c.sid + 1, 0, true⟩)
        (fun k hk hk₁ hk₂ => ?_) ?_ (fun hno => by cases hno) fun b v hmem => ?_
      · rw [KVStore.apply_append, hcurrent, read_put_one, if_neg hk₁]
        exact (hread k hk).trans (h.frame k hk hk₁ hk₂)
      · rw [KVStore.apply_append, hcurrent, read_put_one, if_pos rfl, if_pos rfl]
      · rcases List.mem_append.mp hmem with hmem | hmem
        · exact hkeys b v hmem
        · cases List.mem_singleton.mp hmem
          exact ⟨_, hcurrent⟩
    · simp only [hnew, hroll, if_true, if_false]
      exact hsame (c.offset + 1)
  · simp only [hnew]
    exact hsame c.offset

theorem Cursor.Sound.addDocs {docs : List Doc} : ∀ {c : Cursor}, c.Sound T tid sid₀ →
    docs.foldlM (addDocTo db tid) c = some c' → c'.Sound T tid sid₀ := by
  induction docs with
  | nil =>
    intro c h hrun
    cases hrun
    exact h
  | cons doc docs ih =>
    intro c h hrun
    rw [List.foldlM_cons, Option.bind_eq_bind, Option.bind_eq_some_iff] at hrun
    obtain ⟨c₁, hdoc, hrest⟩ := hrun
    simp only [addDocTo, Option.bind_eq_bind, Option.bind_eq_some_iff, Option.pure_def,
      Option.some.injEq] at hdoc
    obtain ⟨m, -, st, hfields, rfl⟩ := hdoc
    exact ih (h.finishDoc (foldlM_addField_extends hfields)) hrest

end Batches

theorem Registry.sound {impl : RocksDBImpl} (hr : Registry impl) {name : Bytes}
    {tid sid offset : UInt64} {schema : DocSchema} (ht : Table impl name tid schema sid offset) :
    Cursor.Sound impl.db tid sid ⟨[], sid, offset, false⟩ := by
  refine ⟨fun _ _ _ _ => rfl, rfl, fun _ => rfl, ?_, fun b v hmem => by simp at hmem⟩
  show impl.db.read (.segmentNextID tid) = _
  rw [hr.places, ht.segment, ht.offset]
  rfl

/-! ## The calls in closed form -/

namespace RocksDBImpl

/-- A batch that has been written. -/
def commit (impl : RocksDBImpl) (tid : UInt64) (c : Cursor) : RocksDBImpl where
  db := impl.db.apply c.wb
  cache := { impl.cache with
    segmap := impl.cache.segmap.insert tid c.sid
    offset := impl.cache.offset.insert tid c.offset }

/-- A table that has been created. -/
def created (impl : RocksDBImpl) (tableName : Bytes) (schema : DocSchema) : RocksDBImpl where
  db := impl.db.apply
    [.put Key.sequence.encode (serialize (impl.cache.tid + 1)),
      .put (Key.table tableName).encode (serialize impl.cache.tid),
      .put (Key.currentSegment impl.cache.tid).encode (serialize 0),
      .put (Key.segmentNextID impl.cache.tid).encode (addr 0 0),
      .put (Key.mapping impl.cache.tid).encode schema.serialize]
  cache :=
    { tid := impl.cache.tid + 1
      segmap := impl.cache.segmap.insert impl.cache.tid 0
      tnamemap := impl.cache.tnamemap.insert tableName impl.cache.tid
      tidnamemap := impl.cache.tidnamemap.insert impl.cache.tid tableName
      tschemamap := impl.cache.tschemamap.insert tableName schema.copy
      offset := impl.cache.offset.insert impl.cache.tid 0 }

variable {impl : RocksDBImpl} {tableName : Bytes}

theorem createTable_eq (schema : DocSchema) :
    (impl.createTable tableName schema).2 =
      if impl.db.read (.table tableName) = none ∧ schema.fixed = true then
        impl.created tableName schema
      else impl := by
  unfold createTable
  cases hread : impl.db[tableKey tableName]? with
  | some v =>
    have hread' : impl.db.read (.table tableName) = some v := hread
    simp only [hread', reduceCtorEq, false_and, if_false]
  | none =>
    have hread' : impl.db.read (.table tableName) = none := hread
    by_cases hfixed : schema.fixed = true
    · have hname : (impl.cache.tidnamemap.insert impl.cache.tid tableName)[impl.cache.tid]? =
          some tableName := by rw [getElem?_insert_eq, if_pos rfl]
      have hschema : (impl.cache.tschemamap.insert tableName schema.copy)[tableName]? =
          some schema.copy := by rw [getElem?_insert_eq, if_pos rfl]
      simp only [hfixed, Bool.true_eq_false, if_false, hread', and_self, if_true]
      simp only [DBCache.updateSegMap, DBCache.updateTidOffset, DBCache.setTid,
        DBCache.updateTableMappingSchema, getD_eq hname, insert_eq_self hname,
        insert_eq_self hschema]
      rfl
    · simp [hfixed]

/-- **A batch of documents for a table.** -/
theorem addBatch_eq {tid sid offset : UInt64} {schema : DocSchema} (hr : Registry impl)
    (ht : Table impl tableName tid schema sid offset) (docs : List Doc) (written : Bool) :
    impl.addBatch tableName docs written =
      (docs.foldlM (addDocTo impl.db tid) ⟨[], sid, offset, false⟩).map fun c =>
        if written then (.ok, impl.commit tid c) else (.ioError, impl) := by
  have hcache : impl.cache.getTidOffset tid = (offset, impl.cache) := by
    rw [DBCache.getTidOffset, getD_eq ht.offset, insert_eq_self ht.offset]
  rw [addBatch, show impl.cache.getSchema tableName = some schema from ht.schema,
    show impl.cache.getTidByTname tableName = some tid from ht.id]
  simp only [show impl.cache.getSegId tid = some sid from ht.segment, hcache]
  cases hrun : docs.foldlM (addDocTo impl.db tid) ⟨[], sid, offset, false⟩ with
  | none => rfl
  | some c =>
    have hc' := (hr.sound ht).addDocs hrun
    cases written with
    | false => rfl
    | true =>
      have hseg : (if c.hasUpdate = true then impl.cache.updateSegMap tid c.sid else impl.cache) =
          { impl.cache with segmap := impl.cache.segmap.insert tid c.sid } := by
        split
        · rfl
        · rename_i hno
          rw [hc'.stays (by simpa using hno), insert_eq_self ht.segment]
      simp only [Option.bind_eq_bind, Option.bind_some, if_true, Option.pure_def, Option.map_some,
        hseg]
      rfl

theorem opened_read (k : Key) : opened.db.read k = if k = .sequence then some (serialize 0) else none := by
  refine (Store.read_put ∅ .sequence k _).trans ?_
  split
  · rfl
  · exact ExtTreeMap.getElem?_empty

end RocksDBImpl

/-! ## Every call keeps the catalogue -/

namespace Catalog

open RocksDBImpl

theorem opened : Catalog opened := by
  have hread := opened_read
  have hempty : ∀ {β : Type} (t : UInt64), t ∈ (∅ : ExtTreeMap UInt64 β) ↔ t < 0 :=
    fun t => ⟨fun h => absurd h ExtTreeMap.not_mem_empty, fun h => absurd h UInt64.not_lt_zero⟩
  refine ⟨hread _, fun name => hread _, fun name tid => ?_, hempty, fun tid => hread _,
    fun tid => hread _, hempty, hempty, fun name => ?_, fun tid => hread _, fun name s hs => ?_, ?_⟩
  · constructor <;> intro h <;> cases h
  · exact ⟨fun h => absurd h ExtTreeMap.not_mem_empty, fun h => absurd h ExtTreeMap.not_mem_empty⟩
  · cases hs
  · intro b hb
    rcases ExtTreeMap.mem_insert.mp hb with heq | hb
    · exact ⟨.sequence, (Std.compare_eq_iff_eq.mp heq).symm⟩
    · exact absurd hb ExtTreeMap.not_mem_empty

variable {impl : RocksDBImpl} {tableName : Bytes}

theorem read_created (schema : DocSchema) (k : Key) :
    (impl.created tableName schema).db.read k =
      if k = .mapping impl.cache.tid then some schema.serialize
      else if k = .segmentNextID impl.cache.tid then some (addr 0 0)
      else if k = .currentSegment impl.cache.tid then some (serialize 0)
      else if k = .table tableName then some (serialize impl.cache.tid)
      else if k = .sequence then some (serialize (impl.cache.tid + 1))
      else impl.db.read k := by
  simp only [RocksDBImpl.created, KVStore.apply_cons, KVStore.apply_nil, Store.read_put]

theorem read_created_ofDoc (schema : DocSchema) {k : Key} (hk : k.ofDoc = true) :
    (impl.created tableName schema).db.read k = impl.db.read k := by
  rw [read_created]
  cases k <;> simp [Key.ofDoc] at hk ⊢

theorem toNat_add_one {n : UInt64} (hn : n.toNat + 1 < 2 ^ 64) : (n + 1).toNat = n.toNat + 1 := by
  rw [UInt64.toNat_add, UInt64.toNat_one]
  exact Nat.mod_eq_of_lt hn

theorem lt_add_one {t n : UInt64} (hn : n.toNat + 1 < 2 ^ 64) : t < n + 1 ↔ t = n ∨ t < n := by
  rw [UInt64.lt_iff_toNat_lt, toNat_add_one hn, UInt64.lt_iff_toNat_lt, ← UInt64.toNat_inj]
  omega

end Catalog

namespace Registry

variable {impl : RocksDBImpl} {tableName : Bytes}

/-- **A new table**, even under an id that is in use. -/
theorem created (h : Registry impl) (schema : DocSchema) : Registry (impl.created tableName schema) := by
  refine ⟨fun name => ?_, fun tid => ?_, fun tid => ?_, fun name tid hname => ?_, ?_⟩
  · rw [Catalog.read_created, RocksDBImpl.created, getElem?_insert_eq]
    by_cases heq : name = tableName
    · simp [heq]
    · simp [heq, h.names]
  · rw [Catalog.read_created, RocksDBImpl.created, getElem?_insert_eq]
    by_cases ht : tid = impl.cache.tid
    · simp [ht]
    · simp [ht, h.segments]
  · rw [Catalog.read_created, RocksDBImpl.created, getElem?_insert_eq, getElem?_insert_eq]
    by_cases ht : tid = impl.cache.tid
    · simp [ht]
    · simp [ht, h.places]
  · have hknown : tid = impl.cache.tid ∨ tid ∈ impl.cache.segmap ∧ tid ∈ impl.cache.offset := by
      rw [RocksDBImpl.created, getElem?_insert_eq] at hname
      split at hname
      · cases hname
        exact .inl rfl
      · exact .inr (h.known name tid hname)
    refine ⟨ExtTreeMap.mem_insert.mpr ?_, ExtTreeMap.mem_insert.mpr ?_⟩ <;>
      rw [Std.compare_eq_iff_eq, eq_comm]
    · exact hknown.imp_right And.left
    · exact hknown.imp_right And.right
  · refine KVStore.mem_apply h.keys fun b v hput => ?_
    simp only [List.mem_cons, Write.put.injEq, List.not_mem_nil, or_false] at hput
    rcases hput with ⟨rfl, -⟩ | ⟨rfl, -⟩ | ⟨rfl, -⟩ | ⟨rfl, -⟩ | ⟨rfl, -⟩ <;> exact ⟨_, rfl⟩

/-- **A batch of documents.** -/
theorem commit (h : Registry impl) {tid sid offset : UInt64} {schema : DocSchema} {c : Cursor}
    (ht : Table impl tableName tid schema sid offset) (hc : c.Sound impl.db tid sid) :
    Registry (impl.commit tid c) := by
  have hframe : ∀ k : Key, k.ofDoc = false → k ≠ .currentSegment tid → k ≠ .segmentNextID tid →
      (impl.commit tid c).db.read k = impl.db.read k := hc.frame
  refine ⟨fun name => ?_, fun t => ?_, fun t => ?_, fun name t hname => ?_,
    KVStore.mem_apply h.keys hc.keys⟩
  · rw [hframe _ rfl (by simp) (by simp)]
    exact h.names name
  · rw [RocksDBImpl.commit, getElem?_insert_eq]
    by_cases heq : t = tid
    · rw [heq, if_pos rfl]
      refine hc.segment.trans ?_
      split
      · rfl
      · rename_i hno
        rw [h.segments, ht.segment, hc.stays (by simpa using hno)]
    · rw [if_neg heq, ← h.segments]
      exact hframe _ rfl (by simpa using heq) (by simp)
  · rw [RocksDBImpl.commit, getElem?_insert_eq, getElem?_insert_eq]
    by_cases heq : t = tid
    · rw [heq, if_pos rfl, if_pos rfl]
      exact hc.place
    · rw [if_neg heq, if_neg heq, ← h.places]
      exact hframe _ rfl (by simp) (by simpa using heq)
  · obtain ⟨hseg, hoff⟩ := h.known name t hname
    exact ⟨ExtTreeMap.mem_insert.mpr (.inr hseg), ExtTreeMap.mem_insert.mpr (.inr hoff)⟩

end Registry

namespace Catalog

variable {impl : RocksDBImpl} {tableName : Bytes}

/-- **A new table.** The id it gets is not in use. -/
theorem created (h : Catalog impl) {schema : DocSchema} (hnew : impl.db.read (.table tableName) = none)
    (hfixed : schema.fixed = true) (hroom : impl.cache.tid.toNat + 1 < 2 ^ 64) :
    Catalog (impl.created tableName schema) := by
  have hname : impl.cache.tnamemap[tableName]? = none :=
    ExtTreeMap.getElem?_eq_none (h.read_table_eq_none.mp hnew)
  have hid : impl.cache.tidnamemap[impl.cache.tid]? = none := by
    by_contra hne
    obtain ⟨name, hname⟩ := Option.ne_none_iff_exists'.mp hne
    have := (h.ids impl.cache.tid).mp (mem_iff_exists.mpr ⟨name, hname⟩)
    exact absurd this (UInt64.lt_irrefl _)
  have hmem : ∀ {β : Type} {m : ExtTreeMap UInt64 β} {v : β},
      (∀ t, t ∈ m ↔ t < impl.cache.tid) →
      ∀ t, t ∈ m.insert impl.cache.tid v ↔ t < impl.cache.tid + 1 := by
    intro β m v hm t
    rw [ExtTreeMap.mem_insert, Std.compare_eq_iff_eq, hm, lt_add_one hroom, @eq_comm _ t]
  have hr : Registry (impl.created tableName schema) := h.registry.created schema
  refine ⟨?_, hr.names, fun name tid => ?_, hmem h.ids, hr.segments, hr.places, hmem h.segmentIds,
    hmem h.offsetIds, fun name => ?_, fun tid => ?_, fun name s hs => ?_, hr.keys⟩
  · rw [read_created]
    rfl
  · simp only [RocksDBImpl.created, getElem?_insert_eq]
    by_cases hn : name = tableName
    · by_cases ht : tid = impl.cache.tid
      · simp [hn, ht]
      · rw [if_pos hn, if_neg ht, ← h.inverse, hn, hname]
        simp [Ne.symm ht]
    · by_cases ht : tid = impl.cache.tid
      · rw [if_neg hn, if_pos ht, h.inverse, ht, hid]
        simp [Ne.symm hn]
      · rw [if_neg hn, if_neg ht, h.inverse]
  · show name ∈ impl.cache.tschemamap.insert tableName schema.copy ↔
      name ∈ impl.cache.tnamemap.insert tableName impl.cache.tid
    rw [ExtTreeMap.mem_insert, ExtTreeMap.mem_insert, h.schemas]
  · rw [read_created, RocksDBImpl.created]
    simp only [getElem?_insert_eq]
    by_cases ht : tid = impl.cache.tid
    · simp [ht]
      rfl
    · simp only [Key.mapping.injEq, ht, if_false, reduceCtorEq, h.mappings]
      cases hn : impl.cache.tidnamemap[tid]? with
      | none => rfl
      | some name =>
        have hne : name ≠ tableName := by
          rintro rfl
          rw [← h.inverse, hname] at hn
          cases hn
        simp only [Option.bind_some, if_neg hne]
  · simp only [RocksDBImpl.created, getElem?_insert_eq] at hs
    split at hs
    · cases hs
      exact hfixed
    · exact h.built name s hs

/-- **A batch of documents.** -/
theorem commit (h : Catalog impl) {tid sid offset : UInt64} {schema : DocSchema} {c : Cursor}
    (ht : Table impl tableName tid schema sid offset) (hc : c.Sound impl.db tid sid) :
    Catalog (impl.commit tid c) := by
  have hframe : ∀ k : Key, k.ofDoc = false → k ≠ .currentSegment tid → k ≠ .segmentNextID tid →
      (impl.commit tid c).db.read k = impl.db.read k := hc.frame
  have hlt := h.name_lt ht.id
  have hmem : ∀ {m : ExtTreeMap UInt64 UInt64} {v : UInt64},
      (∀ t, t ∈ m ↔ t < impl.cache.tid) → ∀ t, t ∈ m.insert tid v ↔ t < impl.cache.tid := by
    intro m v hm t
    rw [ExtTreeMap.mem_insert, Std.compare_eq_iff_eq, hm]
    exact or_iff_right_of_imp fun heq => heq ▸ hlt
  have hr := h.registry.commit ht hc
  refine ⟨?_, hr.names, h.inverse, h.ids, hr.segments, hr.places, hmem h.segmentIds, hmem h.offsetIds,
    h.schemas, fun t => ?_, h.built, hr.keys⟩
  · rw [hframe _ rfl (by simp) (by simp)]
    exact h.sequence
  · rw [hframe _ rfl (by simp) (by simp)]
    exact h.mappings t

end Catalog

end CxxLab.RocksdbLab
