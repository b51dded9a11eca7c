import CxxLab.RocksdbLab.Runs

/-!
# Opening a store again

`Init` reads three families of the catalogue, each with a scan of its own: table names by their
prefix, the places and the schemas by a range of table ids. What makes these scans right is the
order of the keys — big-endian ids are in order, and everything between two keys of a family is in
the family — and that every key of the store is the encoding of a record.

A scan finds part of what the cache held, record by record, until it has found all of it. `Part` is
"part of".
-/

set_option autoImplicit false

namespace CxxLab.RocksdbLab

open Std CxxLab.Lib RocksDBImpl

/-! ## What the scans find -/

namespace Catalog

variable {impl : RocksDBImpl}

/-- The scan of a family by table id: bounds `0` and the next id, a key for each. -/
theorem mem_scan_family (h : Catalog impl) {family : Bytes} {key : UInt64 → Key}
    (hkey : ∀ tid, (key tid).encode = family ++ serialize tid)
    (hfamily : ∀ k : Key, family <+: k.encode → ∃ tid, k = key tid) {b v : Bytes} :
    (b, v) ∈ impl.db.scan (family ++ serialize 0) (some (family ++ serialize impl.cache.tid)) ↔
      ∃ tid, b = (key tid).encode ∧ tid < impl.cache.tid ∧ impl.db.read (key tid) = some v := by
  rw [KVStore.mem_scan]
  constructor
  · rintro ⟨hread, hlow, hhigh⟩
    have hhigh := hhigh _ rfl
    obtain ⟨k, rfl⟩ := h.keys b (mem_iff_exists.mpr ⟨v, hread⟩)
    obtain ⟨tid, rfl⟩ := hfamily k (isPrefix_of_between hlow hhigh)
    rw [hkey, compare_append_left, compare_serialize] at hhigh
    exact ⟨tid, rfl, Std.compare_eq_lt.mp hhigh, hread⟩
  · rintro ⟨tid, rfl, hlt, hread⟩
    refine ⟨hread, ?_, fun u hu => ?_⟩
    · rw [hkey, compare_append_left, compare_serialize]
      exact LawfulOrderOrd.isLE_compare _ _ |>.mpr UInt64.zero_le
    · cases hu
      rw [hkey, compare_append_left, compare_serialize]
      exact Std.compare_eq_lt.mpr hlt

theorem mem_scan_segmentNextID (h : Catalog impl) {b v : Bytes} :
    (b, v) ∈ impl.db.scan (segmentNextIDKey 0)
        (some (segmentNextIDPrefix ++ serialize impl.cache.tid)) ↔
      ∃ tid, b = (Key.segmentNextID tid).encode ∧ tid < impl.cache.tid ∧
        impl.db.read (.segmentNextID tid) = some v := by
  refine h.mem_scan_family (fun _ => rfl) fun k hk => ?_
  have := Key.family_eq rfl hk
  cases k <;> simp [Key.family, tableSequenceKey, tablePrefix, currentSegmentPrefix,
    segmentNextIDPrefix, uidIdMappingPrefix, mappingPrefix, fieldIndexPrefix, fieldValuePrefix]
    at this ⊢

theorem mem_scan_mapping (h : Catalog impl) {b v : Bytes} :
    (b, v) ∈ impl.db.scan (mappingKey 0) (some (mappingPrefix ++ serialize impl.cache.tid)) ↔
      ∃ tid, b = (Key.mapping tid).encode ∧ tid < impl.cache.tid ∧
        impl.db.read (.mapping tid) = some v := by
  refine h.mem_scan_family (fun _ => rfl) fun k hk => ?_
  have := Key.family_eq rfl hk
  cases k <;> simp [Key.family, tableSequenceKey, tablePrefix, currentSegmentPrefix,
    segmentNextIDPrefix, uidIdMappingPrefix, mappingPrefix, fieldIndexPrefix, fieldValuePrefix]
    at this ⊢

/-- The scan of the names stops at the first key of another family. -/
theorem mem_scan_names {b v : Bytes} :
    (b, v) ∈ (impl.db.scan tablePrefix none).takeWhile (fun kv => tablePrefix.isPrefixOf kv.1) ↔
      ∃ name, b = (Key.table name).encode ∧ impl.db.read (.table name) = some v := by
  have hclosed : (impl.db.scan tablePrefix none).Pairwise fun a b =>
      tablePrefix.isPrefixOf b.1 = true → tablePrefix.isPrefixOf a.1 = true := by
    refine List.Pairwise.imp_of_mem ?_ (KVStore.scan_sorted _ _ _)
    intro x y hx _ hxy hy
    obtain ⟨rest, hrest⟩ := List.isPrefixOf_iff_prefix.mp hy
    rw [← hrest] at hxy
    have hlow := (KVStore.mem_scan.mp hx).2.1
    rw [← List.append_nil tablePrefix] at hlow
    exact List.isPrefixOf_iff_prefix.mpr (isPrefix_of_between hlow hxy)
  rw [takeWhile_eq_filter hclosed, List.mem_filter, KVStore.mem_scan, List.isPrefixOf_iff_prefix]
  constructor
  · rintro ⟨⟨hread, -, -⟩, rest, rfl⟩
    exact ⟨rest, rfl, hread⟩
  · rintro ⟨name, rfl, hread⟩
    refine ⟨⟨hread, ?_, fun _ hu => by cases hu⟩, name, rfl⟩
    show (compare tablePrefix (tablePrefix ++ name)).isLE = true
    have := compare_append_left tablePrefix [] name
    rw [List.append_nil] at this
    rw [this]
    exact List.isLE_compare_nil_left

end Catalog

/-! ## What the loops make of it -/

section Part

variable {κ β : Type} [Ord κ] [TransOrd κ] [LawfulEqOrd κ] [DecidableEq κ]

/-- One map is part of another. -/
def Part (m m' : ExtTreeMap κ β) : Prop := ∀ (k : κ) v, m[k]? = some v → m'[k]? = some v

variable {m m' : ExtTreeMap κ β}

omit [LawfulEqOrd κ] [DecidableEq κ] in
theorem Part.empty : Part ∅ m' := fun k v h => by rw [ExtTreeMap.getElem?_empty] at h; cases h

theorem Part.insert (h : Part m m') {k : κ} {v : β} (hk : m'[k]? = some v) :
    Part (m.insert k v) m' ∧ Part m (m.insert k v) := by
  constructor
  · intro k' v' hk'
    rw [getElem?_insert_eq] at hk'
    split at hk'
    · rename_i heq
      rw [heq, hk, hk']
    · exact h k' v' hk'
  · intro k' v' hk'
    rw [getElem?_insert_eq]
    split
    · rename_i heq
      rw [← hk, ← heq]
      exact h k' v' hk'
    · exact hk'

omit [DecidableEq κ] in
theorem Part.eq (h : Part m m') (h' : ∀ k, k ∈ m' → k ∈ m) : m = m' := by
  refine ExtTreeMap.ext_getElem? fun k => ?_
  cases hk : m[k]? with
  | some v => exact (h k v hk).symm
  | none =>
    by_contra hne
    obtain ⟨v, hv⟩ := Option.ne_none_iff_exists'.mp (Ne.symm hne)
    obtain ⟨w, hw⟩ := mem_iff_exists.mp (h' k (mem_iff_exists.mpr ⟨v, hv⟩))
    rw [hk] at hw
    cases hw

end Part

/-- Two caches agree, up to what a schema has besides its numbering. -/
structure SameCache (c c' : DBCache) : Prop where
  tid : c'.tid = c.tid
  tnamemap : c'.tnamemap = c.tnamemap
  tidnamemap : c'.tidnamemap = c.tidnamemap
  segmap : c'.segmap = c.segmap
  offset : c'.offset = c.offset
  schemas : ∀ name : Bytes, c'.tschemamap[name]?.map DocSchema.toNumbering =
    c.tschemamap[name]?.map DocSchema.toNumbering

namespace Catalog

variable {impl : RocksDBImpl}

/-- The loop over the names. -/
theorem foldlM_loadName (h : Catalog impl) {names : List (Bytes × Bytes)}
    (hnames : ∀ {b v}, (b, v) ∈ names ↔
      ∃ name, b = (Key.table name).encode ∧ impl.db.read (.table name) = some v)
    (cache : DBCache) (hn : cache.tnamemap = ∅) (hi : cache.tidnamemap = ∅) :
    names.foldlM loadName cache = some { cache with
      tnamemap := impl.cache.tnamemap, tidnamemap := impl.cache.tidnamemap } := by
  have hread : ∀ {name : Bytes} {v}, impl.db.read (.table name) = some v →
      ∃ tid, v = serialize tid ∧ impl.cache.tnamemap[name]? = some tid := by
    intro name v hv
    rw [h.names] at hv
    obtain ⟨tid, htid, rfl⟩ := Option.map_eq_some_iff.mp hv
    exact ⟨tid, rfl, htid⟩
  obtain ⟨cache', hrun, ⟨hmore, hnpart, hipart⟩, hdone, -⟩ := foldlM_collect (f := loadName)
    (I := fun c => { cache with tnamemap := c.tnamemap, tidnamemap := c.tidnamemap } = c ∧
      Part c.tnamemap impl.cache.tnamemap ∧ Part c.tidnamemap impl.cache.tidnamemap)
    (D := fun c kv => ∀ name tid, kv = ((Key.table name).encode, serialize tid) →
      name ∈ c.tnamemap ∧ tid ∈ c.tidnamemap)
    (P := (· ∈ names))
    (fun c kv ⟨hmore, hnpart, hipart⟩ hkv => by
      obtain ⟨b, v⟩ := kv
      obtain ⟨name, rfl, hv⟩ := hnames.mp hkv
      obtain ⟨tid, rfl, htid⟩ := hread hv
      refine ⟨c.updateTableMappingName tid name, ?_, ⟨?_, (hnpart.insert htid).1,
        (hipart.insert ((h.inverse name tid).mp htid)).1⟩, ?_, ?_⟩
      · rw [loadName, deserialize_serialize]
        rfl
      · rw [← hmore]
        rfl
      · rintro name' tid' heq
        obtain ⟨hname, htid⟩ := Prod.mk.injEq .. ▸ heq
        cases Key.encode_inj.mp hname
        cases serialize_inj.mp htid
        exact ⟨ExtTreeMap.mem_insert_self, ExtTreeMap.mem_insert_self⟩
      · intro kv hdone name' tid' heq
        obtain ⟨h₁, h₂⟩ := hdone name' tid' heq
        exact ⟨ExtTreeMap.mem_insert.mpr (.inr h₁), ExtTreeMap.mem_insert.mpr (.inr h₂)⟩)
    (show _ ∧ _ from ⟨rfl, hn ▸ Part.empty, hi ▸ Part.empty⟩) (fun _ hkv => hkv)
  have hall : ∀ name tid, impl.cache.tnamemap[name]? = some tid →
      name ∈ cache'.tnamemap ∧ tid ∈ cache'.tidnamemap := by
    intro name tid htid
    refine hdone _ (hnames.mpr ⟨name, rfl, ?_⟩) name tid rfl
    rw [h.names, htid]
    rfl
  have hneq := hnpart.eq fun name hname => by
    obtain ⟨tid, htid⟩ := mem_iff_exists.mp hname
    exact (hall name tid htid).1
  have hieq := hipart.eq fun tid htid => by
    obtain ⟨name, hname⟩ := mem_iff_exists.mp htid
    exact (hall name tid ((h.inverse name tid).mpr hname)).2
  rw [hrun, ← hmore, hneq, hieq]

theorem drop_family (tid : UInt64) {family : Bytes} (hlen : family.length = 3) :
    deserialize ((family ++ serialize tid).drop mappingPrefix.length) = some tid := by
  rw [show mappingPrefix.length = family.length from hlen.symm, List.drop_left,
    deserialize_serialize]

/-- The loop over the places. -/
theorem foldlM_loadSegment (h : Catalog impl) (cache : DBCache) (hs : cache.segmap = ∅)
    (ho : cache.offset = ∅) :
    (impl.db.scan (segmentNextIDKey 0)
        (some (segmentNextIDPrefix ++ serialize impl.cache.tid))).foldlM loadSegment cache =
      some { cache with segmap := impl.cache.segmap, offset := impl.cache.offset } := by
  obtain ⟨cache', hrun, ⟨hmore, hspart, hopart⟩, hdone, -⟩ := foldlM_collect (f := loadSegment)
    (I := fun c => { cache with segmap := c.segmap, offset := c.offset } = c ∧
      Part c.segmap impl.cache.segmap ∧ Part c.offset impl.cache.offset)
    (D := fun c kv => ∀ tid, kv.1 = (Key.segmentNextID tid).encode →
      tid ∈ c.segmap ∧ tid ∈ c.offset)
    (P := (· ∈ impl.db.scan (segmentNextIDKey 0)
      (some (segmentNextIDPrefix ++ serialize impl.cache.tid))))
    (fun c kv ⟨hmore, hspart, hopart⟩ hkv => by
      obtain ⟨b, v⟩ := kv
      obtain ⟨tid, rfl, -, hv⟩ := h.mem_scan_segmentNextID.mp hkv
      rw [h.places] at hv
      obtain ⟨sid, hsid, hv⟩ := Option.bind_eq_some_iff.mp hv
      obtain ⟨o, hoff, rfl⟩ := Option.map_eq_some_iff.mp hv
      refine ⟨(c.updateSegMap tid sid).updateTidOffset tid o, ?_, ⟨?_, (hspart.insert hsid).1,
        (hopart.insert hoff).1⟩, ?_, ?_⟩
      · rw [loadSegment, show (Key.segmentNextID tid).encode = segmentNextIDPrefix ++ serialize tid
          from rfl, drop_family tid rfl, deserialize_addr, deserialize_drop_addr]
        rfl
      · rw [← hmore]
        rfl
      · intro tid' heq
        have heq : (Key.segmentNextID tid).encode = (Key.segmentNextID tid').encode := heq
        cases Key.encode_inj.mp heq
        exact ⟨ExtTreeMap.mem_insert_self, ExtTreeMap.mem_insert_self⟩
      · intro kv hdone tid' heq
        obtain ⟨h₁, h₂⟩ := hdone tid' heq
        exact ⟨ExtTreeMap.mem_insert.mpr (.inr h₁), ExtTreeMap.mem_insert.mpr (.inr h₂)⟩)
    (show _ ∧ _ from ⟨rfl, hs ▸ Part.empty, ho ▸ Part.empty⟩) (fun _ hkv => hkv)
  have hall : ∀ tid, tid < impl.cache.tid → tid ∈ cache'.segmap ∧ tid ∈ cache'.offset := by
    intro tid hlt
    obtain ⟨sid, hsid⟩ := mem_iff_exists.mp ((h.segmentIds tid).mpr hlt)
    obtain ⟨o, hoff⟩ := mem_iff_exists.mp ((h.offsetIds tid).mpr hlt)
    refine hdone (_, addr sid o) (h.mem_scan_segmentNextID.mpr ⟨tid, rfl, hlt, ?_⟩) tid rfl
    rw [h.places, hsid, hoff]
    rfl
  have hseq := hspart.eq fun tid htid => (hall tid ((h.segmentIds tid).mp htid)).1
  have hoeq := hopart.eq fun tid htid => (hall tid ((h.offsetIds tid).mp htid)).2
  rw [hrun, ← hmore, hseq, hoeq]

/-- The counts and lengths of all schemas fit in a byte. -/
def SmallSchemas (impl : RocksDBImpl) : Prop :=
  ∀ (name : Bytes) s, impl.cache.tschemamap[name]? = some s →
    s.fieldsSchema.size ≤ 255 ∧ ∀ field ∈ s.fieldsSchema, field.length ≤ 255

/-- A turn of the loop over the schemas: what is read back is the schema of the table, up to what has
no place in the format. -/
theorem loadSchema_turn (h : Catalog impl) (hsmall : SmallSchemas impl) {c : DBCache}
    (hi : c.tidnamemap = impl.cache.tidnamemap) {kv : Bytes × Bytes}
    (hkv : kv ∈ impl.db.scan (mappingKey 0) (some (mappingPrefix ++ serialize impl.cache.tid))) :
    ∃ tid name s s', kv.1 = (Key.mapping tid).encode ∧ impl.cache.tidnamemap[tid]? = some name ∧
      impl.cache.tschemamap[name]? = some s ∧ s'.toNumbering = s.toNumbering ∧
      loadSchema c kv = some { c with tschemamap := c.tschemamap.insert name s' } := by
  obtain ⟨b, v⟩ := kv
  obtain ⟨tid, rfl, -, hv⟩ := h.mem_scan_mapping.mp hkv
  rw [h.mappings] at hv
  obtain ⟨name, hname, hv⟩ := Option.bind_eq_some_iff.mp hv
  obtain ⟨s, hschema, rfl⟩ := Option.map_eq_some_iff.mp hv
  obtain ⟨hsize, hlen⟩ := hsmall name s hschema
  obtain ⟨s', hs', hnum⟩ := DocSchema.deserialize_serialize (h.built name s hschema) hsize hlen
  have hcname : c.tidnamemap[tid]? = some name := by rw [hi, hname]
  -- The name is looked up by the id, which leaves the map of the names as it is.
  have hupdate : c.updateTableMappingSchema tid s' =
      { c with tschemamap := c.tschemamap.insert name s'.copy } := by
    rw [DBCache.updateTableMappingSchema, getD_eq hcname, insert_eq_self hcname]
  refine ⟨tid, name, s, s'.copy, rfl, hname, hschema, hnum, ?_⟩
  rw [loadSchema, hs', show (Key.mapping tid).encode = mappingPrefix ++ serialize tid from rfl,
    Option.bind_eq_bind, Option.bind_some, drop_family tid rfl, Option.bind_eq_bind,
    Option.bind_some, hupdate]
  rfl

/-- The loop over the schemas. -/
theorem foldlM_loadSchema (h : Catalog impl) (hsmall : SmallSchemas impl) (cache : DBCache)
    (hi : cache.tidnamemap = impl.cache.tidnamemap) (hs : cache.tschemamap = ∅) :
    ∃ schemas, (impl.db.scan (mappingKey 0) (some (mappingPrefix ++ serialize impl.cache.tid))).foldlM
        loadSchema cache = some { cache with tschemamap := schemas } ∧
      ∀ name : Bytes, schemas[name]?.map DocSchema.toNumbering =
        impl.cache.tschemamap[name]?.map DocSchema.toNumbering := by
  obtain ⟨cache', hrun, ⟨hmore, hpart⟩, hdone, -⟩ := foldlM_collect (f := loadSchema)
    (I := fun c => { cache with tschemamap := c.tschemamap } = c ∧
      ∀ (name : Bytes) s', c.tschemamap[name]? = some s' → ∃ s, impl.cache.tschemamap[name]? = some s ∧
        s'.toNumbering = s.toNumbering)
    (D := fun c kv => ∀ tid name, kv.1 = (Key.mapping tid).encode →
      impl.cache.tidnamemap[tid]? = some name → name ∈ c.tschemamap)
    (P := (· ∈ impl.db.scan (mappingKey 0) (some (mappingPrefix ++ serialize impl.cache.tid))))
    (fun c kv ⟨hmore, hpart⟩ hkv => by
      have hci : c.tidnamemap = impl.cache.tidnamemap := by rw [← hmore, hi]
      obtain ⟨tid, name, s, s', hkey, hname, hschema, hnum, hload⟩ :=
        h.loadSchema_turn hsmall hci hkv
      refine ⟨_, hload, ⟨?_, ?_⟩, ?_, ?_⟩
      · rw [← hmore]
      · intro name' s'' hget
        simp only [getElem?_insert_eq] at hget
        split at hget
        · rename_i heq
          cases hget
          exact ⟨s, heq ▸ hschema, hnum⟩
        · exact hpart name' s'' hget
      · intro tid' name' heq hname'
        cases Key.encode_inj.mp (hkey.symm.trans heq)
        rw [hname] at hname'
        cases hname'
        exact ExtTreeMap.mem_insert_self
      · intro kv hdone tid' name' heq hname'
        exact ExtTreeMap.mem_insert.mpr (.inr (hdone tid' name' heq hname')))
    (show _ ∧ _ from ⟨rfl, fun name s' hget => by
      rw [hs, ExtTreeMap.getElem?_empty] at hget
      cases hget⟩) (fun _ hkv => hkv)
  refine ⟨cache'.tschemamap, by rw [hrun, hmore], fun name => ?_⟩
  cases hget : cache'.tschemamap[name]? with
  | some s' =>
    obtain ⟨s, hs, hnum⟩ := hpart name s' hget
    rw [hs, Option.map_some, Option.map_some, hnum]
  | none =>
    cases hs : impl.cache.tschemamap[name]? with
    | none => rfl
    | some s =>
      obtain ⟨tid, htid⟩ := mem_iff_exists.mp ((h.schemas name).mp (mem_iff_exists.mpr ⟨s, hs⟩))
      have hname := (h.inverse name tid).mp htid
      have hin := hdone (_, s.serialize) (h.mem_scan_mapping.mpr
        ⟨tid, rfl, h.name_lt htid, by rw [h.mappings, hname, Option.bind_some, hs, Option.map_some]⟩)
        tid name rfl hname
      rw [ExtTreeMap.mem_iff_isSome_getElem?, hget] at hin
      cases hin

/-- **Opening a store again gives the same cache.** -/
theorem init_eq (h : Catalog impl) (hsmall : SmallSchemas impl) :
    ∃ cache, init impl.db = some ⟨impl.db, cache⟩ ∧ SameCache impl.cache cache := by
  have hseq : impl.db[tableSequenceKey]? = some (serialize impl.cache.tid) := h.sequence
  obtain ⟨schemas, hschemas, hnum⟩ := h.foldlM_loadSchema hsmall
    ⟨impl.cache.tid, impl.cache.segmap, impl.cache.tnamemap, impl.cache.tidnamemap, ∅,
      impl.cache.offset⟩ rfl rfl
  refine ⟨⟨impl.cache.tid, impl.cache.segmap, impl.cache.tnamemap, impl.cache.tidnamemap, schemas,
    impl.cache.offset⟩, ?_, rfl, rfl, rfl, rfl, rfl, hnum⟩
  have hnames := h.foldlM_loadName mem_scan_names (DBCache.new.setTid impl.cache.tid none) rfl rfl
  have hsegments := h.foldlM_loadSegment ⟨impl.cache.tid, ∅, impl.cache.tnamemap,
    impl.cache.tidnamemap, ∅, ∅⟩ rfl rfl
  rw [init, hseq]
  exact Option.bind_eq_some_iff.mpr ⟨_, deserialize_serialize _,
    Option.bind_eq_some_iff.mpr ⟨_, hnames, Option.bind_eq_some_iff.mpr ⟨_, hsegments,
      Option.bind_eq_some_iff.mpr ⟨_, hschemas, rfl⟩⟩⟩⟩

end Catalog

/-! ## Every run -/

/-- `name` has been created in a run. A schema that is not built is refused. -/
def CreatedIn (ops : List Op) (name : Bytes) : Prop :=
  ∃ schema, .createTable name schema ∈ ops ∧ schema.fixed = true

/-- All schemas of a run have counts and lengths that fit in a byte. -/
def SmallOps (ops : List Op) : Prop :=
  ∀ name schema, .createTable name schema ∈ ops →
    schema.fieldsSchema.size ≤ 255 ∧ ∀ field ∈ schema.fieldsSchema, field.length ≤ 255

/-- The location in an address. -/
def readLocation (a : Bytes) : Option Location := do
  return (← deserialize a, ← deserialize (a.drop 8))

theorem readLocation_addr (s o : UInt64) : readLocation (addr s o) = some (s, o) := by
  rw [readLocation, deserialize_addr, deserialize_drop_addr]
  rfl

/-- What the cache and the store of a run agree on.

The next table id is that of the sequence record. Names and ids are mapped to each other, and they
are the names that were created and the ids below the next one. And each table has a segment and an
offset in the cache, the ones of its two records in the store. -/
structure Agreement (ops : List Op) (impl : RocksDBImpl) : Prop where
  sequence : (impl.db.read .sequence).bind deserialize = some impl.cache.tid
  inverse : ∀ (name : Bytes) (tid : UInt64),
    impl.cache.tnamemap[name]? = some tid ↔ impl.cache.tidnamemap[tid]? = some name
  names : ∀ name, name ∈ impl.cache.tnamemap ↔ CreatedIn ops name
  ids : ∀ tid, tid ∈ impl.cache.tidnamemap ↔ tid < impl.cache.tid
  places : ∀ tid, tid < impl.cache.tid → ∃ sid offset, impl.cache.segmap[tid]? = some sid ∧
    impl.cache.offset[tid]? = some offset ∧
    (impl.db.read (.segmentNextID tid)).bind readLocation = some (sid, offset) ∧
    (impl.db.read (.currentSegment tid)).bind deserialize = some sid

/-- What `Init` makes of the store is the cache.

`Init` runs on the store alone, with an empty cache. It has to come through, to leave the store as
it is, and to end with the maps of the cache that is given up. Of a schema that is the numbering of
its fields, with their names and types. -/
def Recovers (impl : RocksDBImpl) : Prop :=
  ∃ cache, init impl.db = some ⟨impl.db, cache⟩ ∧ SameCache impl.cache cache

/-- The names of a run. They do not depend on the table ids, which may have started over. -/
structure RunNames (ops : List Op) (impl : RocksDBImpl) : Prop where
  registry : Registry impl
  names : ∀ name, name ∈ impl.cache.tnamemap ↔ CreatedIn ops name

namespace RunNames

variable {ops : List Op} {impl impl' : RocksDBImpl} {op : Op}

theorem opened : RunNames [] opened := by
  refine ⟨Catalog.opened.registry, fun name => ?_⟩
  refine ⟨fun h => absurd h ExtTreeMap.not_mem_empty, fun ⟨schema, hmem, _⟩ => ?_⟩
  exact absurd hmem List.not_mem_nil

theorem createdIn_concat {name : Bytes} :
    CreatedIn (ops ++ [op]) name ↔ CreatedIn ops name ∨
      ∃ schema, op = .createTable name schema ∧ schema.fixed = true := by
  simp only [CreatedIn, List.mem_append, List.mem_singleton, or_and_right, exists_or,
    @eq_comm _ op]

/-- **One call.** -/
theorem step (h : RunNames ops impl) (hstep : step impl op = some impl') :
    RunNames (ops ++ [op]) impl' := by
  refine ⟨h.registry.step hstep, fun name => ?_⟩
  rw [createdIn_concat, ← h.names]
  have hother : (∀ name schema, op ≠ .createTable name schema) →
      (name ∈ impl'.cache.tnamemap ↔ name ∈ impl.cache.tnamemap ∨
        ∃ schema, op = .createTable name schema ∧ schema.fixed = true) := by
    intro hop
    rw [or_iff_left fun ⟨schema, heq, _⟩ => hop name schema heq]
    rcases step_cases h.registry hstep with rfl | ⟨_, _, heq, -⟩ | ⟨_, _, _, _, _, _, _, _, _, _, rfl⟩
    · rfl
    · exact absurd heq (hop _ _)
    · rfl
  cases op with
  | createTable name' schema =>
    rw [RocksDBImpl.step, createTable_eq, Option.some_inj] at hstep
    split at hstep
    · rename_i hnew
      subst hstep
      show name ∈ impl.cache.tnamemap.insert name' impl.cache.tid ↔ _
      rw [ExtTreeMap.mem_insert, Std.compare_eq_iff_eq, or_comm]
      refine or_congr_right ⟨?_, ?_⟩
      · rintro rfl
        exact ⟨schema, rfl, hnew.2⟩
      · rintro ⟨schema', heq, -⟩
        cases heq
        rfl
    · rename_i hold
      subst hstep
      refine ⟨.inl, fun hname => hname.elim id ?_⟩
      rintro ⟨schema', heq, hfixed⟩
      cases heq
      by_contra hnot
      refine hold ⟨?_, hfixed⟩
      rw [h.registry.names, not_mem_iff.mp hnot, Option.map_none]
  | addDoc name' doc written => exact hother fun _ _ heq => by cases heq
  | addDocs name' docs written => exact hother fun _ _ heq => by cases heq

/-- **Every run.** -/
theorem run (hrun : runSteps RocksDBImpl.step RocksDBImpl.opened ops = some impl) :
    RunNames ops impl :=
  runSteps_history opened hrun fun _ _ _ _ _ h hstep => h.step hstep

end RunNames

/-- The invariant of runs. -/
structure RunCatalog (ops : List Op) (impl : RocksDBImpl) : Prop where
  catalog : Catalog impl
  tid : impl.cache.tid.toNat ≤ tableCount ops
  names : ∀ name, name ∈ impl.cache.tnamemap ↔ CreatedIn ops name
  schemas : ∀ (name : Bytes) s, impl.cache.tschemamap[name]? = some s →
    ∃ schema, .createTable name schema ∈ ops ∧ s = schema.copy

namespace RunCatalog

variable {ops : List Op} {impl impl' : RocksDBImpl} {op : Op}

/-- A table that only ever is created with one schema has that one. -/
theorem tschemamap_eq (h : RunCatalog ops impl) {name : Bytes} {tid : UInt64} {schema : DocSchema}
    (hid : impl.cache.tnamemap[name]? = some tid)
    (honly : ∀ schema', .createTable name schema' ∈ ops → schema' = schema) :
    impl.cache.tschemamap[name]? = some schema.copy := by
  obtain ⟨s, hs⟩ := mem_iff_exists.mp
    ((h.catalog.schemas name).mpr (mem_iff_exists.mpr ⟨tid, hid⟩))
  obtain ⟨schema', hschema, rfl⟩ := h.schemas name s hs
  rw [hs, honly schema' hschema]

theorem opened : RunCatalog [] opened :=
  ⟨Catalog.opened, Nat.zero_le _, RunNames.opened.names, fun name s hs => by cases hs⟩

/-- A call that creates no table leaves ids and schemas alone. -/
theorem same (h : RunCatalog ops impl) (hcatalog : Catalog impl')
    (hnames : RunNames (ops ++ [op]) impl') (htid : impl'.cache.tid = impl.cache.tid)
    (hschemas : impl'.cache.tschemamap = impl.cache.tschemamap) : RunCatalog (ops ++ [op]) impl' := by
  refine ⟨hcatalog, ?_, hnames.names, fun name s hs => ?_⟩
  · rw [htid, tableCount_concat]
    exact Nat.le_add_right_of_le h.tid
  · rw [hschemas] at hs
    obtain ⟨schema, hmem, heq⟩ := h.schemas name s hs
    exact ⟨schema, List.mem_append_left _ hmem, heq⟩

/-- **One call.** -/
theorem step (h : RunCatalog ops impl) (hstep : step impl op = some impl')
    (hroom : tableCount (ops ++ [op]) < 2 ^ 64) : RunCatalog (ops ++ [op]) impl' := by
  rw [tableCount_concat] at hroom
  obtain ⟨hcatalog, htid⟩ :=
    h.catalog.step hstep (Nat.lt_of_le_of_lt (Nat.add_le_add_right h.tid _) hroom)
  have hnames := RunNames.step ⟨h.catalog.registry, h.names⟩ hstep
  rcases step_cases h.catalog.registry hstep with rfl | ⟨name, schema, rfl, -, -, rfl⟩ |
    ⟨_, _, _, _, _, _, _, _, _, _, rfl⟩
  · exact h.same hcatalog hnames rfl rfl
  · refine ⟨hcatalog, ?_, hnames.names, fun name' s hs => ?_⟩
    · rw [tableCount_concat]
      exact Nat.le_trans htid (Nat.add_le_add_right h.tid _)
    · rw [RocksDBImpl.created, getElem?_insert_eq] at hs
      split at hs
      · rename_i heq
        cases hs
        exact ⟨schema, List.mem_append_right _ (by simp [heq]), rfl⟩
      · obtain ⟨schema', hmem, heq⟩ := h.schemas name' s hs
        exact ⟨schema', List.mem_append_left _ hmem, heq⟩
  · exact h.same hcatalog hnames rfl rfl

/-- **Every run.** -/
theorem run (hrun : runSteps RocksDBImpl.step RocksDBImpl.opened ops = some impl)
    (hroom : tableCount ops < 2 ^ 64) : RunCatalog ops impl := by
  refine runSteps_history opened hrun fun pre s op s' hpre h hstep => h.step hstep ?_
  exact Nat.lt_of_le_of_lt (tableCount_le hpre) hroom

theorem agreement (h : RunCatalog ops impl) : Agreement ops impl := by
  refine ⟨?_, h.catalog.inverse, h.names, h.catalog.ids, fun tid htid => ?_⟩
  · rw [h.catalog.sequence, Option.bind_some, deserialize_serialize]
  · obtain ⟨sid, hsid⟩ := mem_iff_exists.mp ((h.catalog.segmentIds tid).mpr htid)
    obtain ⟨offset, hoffset⟩ := mem_iff_exists.mp ((h.catalog.offsetIds tid).mpr htid)
    refine ⟨sid, offset, hsid, hoffset, ?_, ?_⟩
    · rw [h.catalog.places, hsid, hoffset, Option.bind_some, Option.map_some, Option.bind_some,
        readLocation_addr]
    · rw [h.catalog.segments, hsid, Option.map_some, Option.bind_some, deserialize_serialize]

theorem small (h : RunCatalog ops impl) (hsmall : SmallOps ops) : Catalog.SmallSchemas impl := by
  intro name s hs
  obtain ⟨schema, hmem, rfl⟩ := h.schemas name s hs
  exact hsmall name schema hmem

end RunCatalog

/-- **Cache and store agree, and the store is enough to open it again**, in every run that has not
used up the table ids.

`Init` reads the catalogue from the store in three scans, and comes to the cache that is there
already. That a scan finds all of a family and nothing else rests on the order of the keys, and on
each key of the store being the encoding of a record. Writes that fail change neither cache nor
catalogue, so they may come at any point. -/
theorem run_recovers {ops : List Op} {impl : RocksDBImpl}
    (hrun : runSteps step opened ops = some impl) (hsmall : SmallOps ops)
    (htables : tableCount ops < 2 ^ 64) : Agreement ops impl ∧ Recovers impl := by
  have h := RunCatalog.run hrun htables
  exact ⟨h.agreement, h.catalog.init_eq (h.small hsmall)⟩

/-- A run with a failed write between two that succeed. -/
def mixedRun : List Op :=
  [.createTable pairs pairSchema, .addDoc pairs (pairDoc 1 5) true,
    .addDoc pairs (pairDoc 2 7) false, .addDocs pairs [pairDoc 2 8, pairDoc 3 9] true]

theorem mixedRun_recovers :
    ∃ impl, runSteps step opened mixedRun = some impl ∧ Agreement mixedRun impl ∧ Recovers impl := by
  have hsome : (runSteps step opened mixedRun).isSome = true := by decide +kernel
  obtain ⟨impl, hrun⟩ := Option.isSome_iff_exists.mp hsome
  refine ⟨impl, hrun, run_recovers hrun (fun name schema hmem => ?_) (by decide)⟩
  simp only [mixedRun, List.mem_cons, Op.createTable.injEq, reduceCtorEq, List.not_mem_nil,
    or_false] at hmem
  obtain ⟨-, rfl⟩ := hmem
  exact pairSchema_small

/-- When the table ids are used up, the next one is 0 again, although there are tables. -/
theorem exists_run_not_recovers :
    ¬∀ ops impl, runSteps step opened ops = some impl → SmallOps ops →
      Agreement ops impl ∧ Recovers impl := by
  intro h
  have hnew : ∀ i, opened.db.read (.table (BigEndian.toBytes 8 i)) = none := fun i =>
    Catalog.opened.names _
  obtain ⟨impl, hrun, hafter⟩ := exists_run_createTables pairSchema_fixed hnew (Nat.le_refl _)
  have hsmall : SmallOps (createTables pairSchema (2 ^ 64)) := by
    intro name schema hmem
    obtain ⟨_, heq⟩ := mem_createTables hmem
    cases heq
    exact pairSchema_small
  obtain ⟨hagree, -⟩ := h _ impl hrun hsmall
  have htid : impl.cache.tid = 0 := hafter.tid.trans (by decide)
  obtain ⟨tid, hname⟩ := mem_iff_exists.mp (hafter.added 0 (by decide))
  have hlt := (hagree.ids tid).mp (mem_iff_exists.mpr ⟨_, (hagree.inverse _ tid).mp hname⟩)
  rw [htid] at hlt
  exact UInt64.not_lt_zero hlt

end CxxLab.RocksdbLab
