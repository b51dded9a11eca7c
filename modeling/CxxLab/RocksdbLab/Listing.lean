import CxxLab.RocksdbLab.Readers
import CxxLab.RocksdbLab.Recovery

/-!
# `RocksDBImpl::GetTables`

The catalogue is listed from the records of the table names, and for each table the current segment
is looked up. Where the names end is not decided as in `Init`, which stops at the first key that is
of another family: here the scan has an upper bound, which is the prefix and one byte 255.

Names are arbitrary bytes, and those that begin with a byte 255 are not below that bound. All other
tables are listed, and no others (`getTables_iff`). This does not depend on the table ids, and so
goes on to hold when they start over.
-/

set_option autoImplicit false

namespace CxxLab.RocksdbLab

open Std CxxLab.Lib RocksDBImpl

/-! ## The calls -/

/-- `Table`, as `GetTables` returns it. -/
structure TableEntry where
  name : Bytes
  id : UInt64
  currentSegmentId : UInt64
  deriving DecidableEq

/-- One turn of the loop over the names. -/
def listTable (kv : Bytes × Bytes) : Option TableEntry := do
  let tid ← deserialize kv.2
  return { name := kv.1.drop prefixSize, id := tid, currentSegmentId := 0 }

/-- One turn of the loop over the tables. It asserts that there is a record. -/
def findSegment (db : Store) (table : TableEntry) : Option TableEntry := do
  let sidStr ← db[currentSegmentKey table.id]?
  let sid ← deserialize sidStr
  return { table with currentSegmentId := sid }

/-- `RocksDBImpl::GetTables`, which appends to the tables that are in the vector. -/
def RocksDBImpl.getTables (impl : RocksDBImpl) (tables : List TableEntry) :
    Option (List TableEntry) := do
  let listed ← (impl.db.scan tablePrefix (some (tablePrefix ++ [255]))).mapM listTable
  (tables ++ listed).mapM (findSegment impl.db)

/-! ## What it is for -/

/-- The loop of `Init` over the names enters this one. -/
def InitLoads (db : Store) (name : Bytes) (tid : UInt64) : Prop :=
  ∃ kv ∈ (db.scan tablePrefix none).takeWhile fun kv => tablePrefix.isPrefixOf kv.1,
    ∀ cache, loadName cache kv = some (cache.updateTableMappingName tid name)

/-- **The tables of a run**: each once, with the id its documents are stored under and the segment
the next one goes to, and as `Init` finds them. -/
structure ListsTables (ops : List Op) (impl : RocksDBImpl) (tables : List TableEntry) : Prop where
  once : (tables.map TableEntry.name).Nodup
  created : ∀ name, name ∈ tables.map TableEntry.name ↔ CreatedIn ops name
  agree : ∀ t ∈ tables, impl.cache.getTidByTname t.name = some t.id ∧
    impl.cache.getSegId t.id = some t.currentSegmentId
  loaded : ∀ name tid, InitLoads impl.db name tid ↔ ∃ t ∈ tables, t.name = name ∧ t.id = tid

/-! ## What the loops find -/

/-- The scan has an upper bound that names beginning with 255 are not below. -/
theorem mem_scan_tables {db : Store} {b v : Bytes} :
    (b, v) ∈ db.scan tablePrefix (some (tablePrefix ++ [255])) ↔
      ∃ name, b = (Key.table name).encode ∧ name.head? ≠ some 255 ∧ db.read (.table name) = some v := by
  have hbelow : ∀ name : Bytes,
      compare (tablePrefix ++ name) (tablePrefix ++ [255]) = .lt ↔ name.head? ≠ some 255 := by
    intro name
    rw [compare_append_left]
    cases name with
    | nil => exact ⟨fun _ => by simp, fun _ => rfl⟩
    | cons c rest =>
      rw [List.compare_cons_cons, List.head?_cons, Ne, Option.some_inj]
      by_cases hc : c = 255
      · subst hc
        rw [Std.compare_self, Ordering.eq_then]
        cases rest <;> simp
      · have hlt : c < 255 := by
          have hbyte := c.toNat_lt
          have hne : c.toNat ≠ 255 := fun h => hc (UInt8.toNat_inj.mp h)
          exact UInt8.lt_iff_toNat_lt.mpr (show c.toNat < 255 by omega)
        rw [Std.compare_eq_lt.mpr hlt, Ordering.lt_then]
        simp [hc]
  have habove : ∀ name : Bytes, (compare tablePrefix (tablePrefix ++ name)).isLE = true := by
    intro name
    have hfront := compare_append_left tablePrefix [] name
    rw [List.append_nil] at hfront
    rw [hfront]
    exact List.isLE_compare_nil_left
  rw [KVStore.mem_scan]
  constructor
  · rintro ⟨hread, hlow, hhigh⟩
    have hhigh := hhigh _ rfl
    rw [← List.append_nil tablePrefix] at hlow
    obtain ⟨name, rfl⟩ := isPrefix_of_between hlow hhigh
    exact ⟨name, rfl, (hbelow name).mp hhigh, hread⟩
  · rintro ⟨name, rfl, hname, hread⟩
    refine ⟨hread, habove name, fun u hu => ?_⟩
    cases hu
    exact (hbelow name).mpr hname

variable {impl : RocksDBImpl}

/-- What `GetTables` makes of a record. -/
def Listed (impl : RocksDBImpl) (kv : Bytes × Bytes) (t : TableEntry) : Prop :=
  kv = ((Key.table t.name).encode, serialize t.id) ∧ impl.cache.tnamemap[t.name]? = some t.id ∧
    impl.cache.segmap[t.id]? = some t.currentSegmentId

/-- The two loops, one record after the other. -/
theorem exists_listed (h : Registry impl) {records : List (Bytes × Bytes)}
    (hrecords : ∀ kv ∈ records, ∃ name, kv.1 = (Key.table name).encode ∧
      impl.db.read (.table name) = some kv.2) :
    ∃ listed tables, records.mapM listTable = some listed ∧
      listed.mapM (findSegment impl.db) = some tables ∧ List.Forall₂ (Listed impl) records tables := by
  induction records with
  | nil => exact ⟨[], [], rfl, rfl, .nil⟩
  | cons kv records ih =>
    obtain ⟨b, v⟩ := kv
    obtain ⟨name, hkey, hread⟩ := hrecords (b, v) List.mem_cons_self
    obtain rfl : b = (Key.table name).encode := hkey
    rw [h.names] at hread
    obtain ⟨tid, hid, rfl⟩ := Option.map_eq_some_iff.mp hread
    obtain ⟨sid, hsid⟩ := mem_iff_exists.mp (h.known name tid hid).1
    obtain ⟨listed, tables, hlisted, htables, hall⟩ :=
      ih fun kv hkv => hrecords kv (List.mem_cons_of_mem _ hkv)
    have hlist : listTable ((Key.table name).encode, serialize tid) = some ⟨name, tid, 0⟩ := by
      rw [listTable, deserialize_serialize]
      rfl
    have hfind : findSegment impl.db ⟨name, tid, 0⟩ = some ⟨name, tid, sid⟩ := by
      have hrecord : impl.db[currentSegmentKey tid]? = some (serialize sid) :=
        (h.segments tid).trans (by rw [hsid, Option.map_some])
      rw [findSegment, hrecord, Option.bind_eq_bind, Option.bind_some, deserialize_serialize]
      rfl
    refine ⟨⟨name, tid, 0⟩ :: listed, ⟨name, tid, sid⟩ :: tables, ?_, ?_, .cons ⟨rfl, hid, hsid⟩ hall⟩
    · rw [List.mapM_cons, hlist, hlisted]
      rfl
    · rw [List.mapM_cons, hfind, htables]
      rfl

/-- Different keys make different names. -/
theorem Listed.nodup {records : List (Bytes × Bytes)} {tables : List TableEntry}
    (hall : List.Forall₂ (Listed impl) records tables)
    (hsorted : records.Pairwise fun a b => compare a.1 b.1 = .lt) :
    (tables.map TableEntry.name).Nodup := by
  induction hall with
  | nil => exact List.nodup_nil
  | cons hfirst hrest ih =>
    obtain ⟨hbelow, hsorted⟩ := List.pairwise_cons.mp hsorted
    refine List.nodup_cons.mpr ⟨fun hmem => ?_, ih hsorted⟩
    obtain ⟨t', ht', hname⟩ := List.mem_map.mp hmem
    obtain ⟨kv', hkv', hlisted'⟩ := exists_of_mem_right hrest ht'
    have hlt := hbelow kv' hkv'
    rw [hfirst.1, hlisted'.1, hname, Std.compare_self] at hlt
    cases hlt

/-- **What `GetTables` returns**: all tables but those whose names begin with 255. -/
theorem getTables_spec (h : Registry impl) :
    ∃ tables, impl.getTables [] = some tables ∧ (tables.map TableEntry.name).Nodup ∧
      ∀ t, t ∈ tables ↔ t.name.head? ≠ some 255 ∧ impl.cache.tnamemap[t.name]? = some t.id ∧
        impl.cache.segmap[t.id]? = some t.currentSegmentId := by
  have hrecords : ∀ kv ∈ impl.db.scan tablePrefix (some (tablePrefix ++ [255])),
      ∃ name, kv.1 = (Key.table name).encode ∧ impl.db.read (.table name) = some kv.2 := by
    intro kv hkv
    obtain ⟨name, hkey, -, hread⟩ := mem_scan_tables.mp hkv
    exact ⟨name, hkey, hread⟩
  obtain ⟨listed, tables, hlisted, htables, hall⟩ := exists_listed h hrecords
  refine ⟨tables, ?_, Listed.nodup hall (KVStore.scan_sorted _ _ _), fun t =>
    ⟨fun ht => ?_, fun ⟨hhead, hid, hsid⟩ => ?_⟩⟩
  · rw [getTables, hlisted]
    exact htables
  · obtain ⟨kv, hkv, rfl, hid, hsid⟩ := exists_of_mem_right hall ht
    obtain ⟨name, hkey, hhead, -⟩ := mem_scan_tables.mp hkv
    injection Key.encode_inj.mp hkey with hname
    exact ⟨hname ▸ hhead, hid, hsid⟩
  · obtain ⟨name, tid, sid⟩ := t
    have hread : impl.db.read (.table name) = some (serialize tid) := by
      rw [h.names, hid, Option.map_some]
    obtain ⟨⟨name', tid', sid'⟩, ht', hkv, hid', hsid'⟩ :=
      exists_of_mem_left hall (mem_scan_tables.mpr ⟨name, rfl, hhead, hread⟩)
    obtain ⟨hkey, hval⟩ := Prod.mk.inj hkv
    obtain rfl : tid = tid' := serialize_inj.mp hval
    injection Key.encode_inj.mp hkey with hname
    cases Option.some_inj.mp (hsid.symm.trans hsid')
    obtain rfl : name = name' := hname
    exact ht'

/-- What the loop of `Init` enters. -/
theorem initLoads_iff (h : Registry impl) {name : Bytes} {tid : UInt64} :
    InitLoads impl.db name tid ↔ impl.cache.tnamemap[name]? = some tid := by
  have hload : ∀ (name : Bytes) (tid : UInt64) cache,
      loadName cache ((Key.table name).encode, serialize tid) =
        some (cache.updateTableMappingName tid name) := by
    intro name tid cache
    rw [loadName, deserialize_serialize]
    rfl
  constructor
  · rintro ⟨⟨b, v⟩, hmem, hcache⟩
    obtain ⟨name', rfl, hread⟩ := Catalog.mem_scan_names.mp hmem
    rw [h.names] at hread
    obtain ⟨tid', hid, rfl⟩ := Option.map_eq_some_iff.mp hread
    -- What is entered in an empty cache shows which table it was.
    have hentered := hcache DBCache.new
    rw [hload, Option.some_inj] at hentered
    have hat := congrArg (fun c => c.tnamemap[name']?) hentered
    simp only [DBCache.updateTableMappingName, getElem?_insert_eq, if_true, DBCache.new,
      ExtTreeMap.getElem?_empty] at hat
    split at hat
    · rename_i hname
      cases hat
      rw [← hname]
      exact hid
    · cases hat
  · intro hid
    refine ⟨((Key.table name).encode, serialize tid), Catalog.mem_scan_names.mpr ⟨name, rfl, ?_⟩,
      hload name tid⟩
    rw [h.names, hid, Option.map_some]

/-! ## Every run -/

/-- **When `GetTables` lists the catalogue**: exactly if no table has a name that begins with 255.
The iterator has an upper bound, the prefix of names with the byte 255 behind it, and keys from
there on are left out. All other names are listed once, with the id that `Init` would load for
them. -/
theorem getTables_iff {ops : List Op} (hrun : runSteps step opened ops = some impl) :
    (∃ tables, impl.getTables [] = some tables ∧ ListsTables ops impl tables) ↔
      ∀ name, CreatedIn ops name → name.head? ≠ some 255 := by
  have h := RunNames.run hrun
  obtain ⟨tables, hget, hnodup, hmem⟩ := getTables_spec h.registry
  constructor
  · rintro ⟨tables', hget', hlists⟩ name hname
    cases Option.some_inj.mp (hget.symm.trans hget')
    obtain ⟨t, ht, rfl⟩ := List.mem_map.mp ((hlists.created name).mpr hname)
    exact ((hmem t).mp ht).1
  · intro hnames
    have hin : ∀ name tid, impl.cache.tnamemap[name]? = some tid →
        ∃ t ∈ tables, t.name = name ∧ t.id = tid := by
      intro name tid hid
      obtain ⟨sid, hsid⟩ := mem_iff_exists.mp (h.registry.known name tid hid).1
      exact ⟨⟨name, tid, sid⟩, (hmem _).mpr
        ⟨hnames name ((h.names name).mp (mem_iff_exists.mpr ⟨tid, hid⟩)), hid, hsid⟩, rfl, rfl⟩
    refine ⟨tables, hget, hnodup, fun name => ?_, fun t ht => ((hmem t).mp ht).2, fun name tid => ?_⟩
    · rw [← h.names, List.mem_map]
      constructor
      · rintro ⟨t, ht, rfl⟩
        exact mem_iff_exists.mpr ⟨t.id, ((hmem t).mp ht).2.1⟩
      · intro hname
        obtain ⟨tid, hid⟩ := mem_iff_exists.mp hname
        obtain ⟨t, ht, htname, -⟩ := hin name tid hid
        exact ⟨t, ht, htname⟩
    · rw [initLoads_iff h.registry]
      refine ⟨hin name tid, ?_⟩
      rintro ⟨t, ht, rfl, rfl⟩
      exact ((hmem t).mp ht).2.1

/-- Two tables with a document between them. The name of the second is one the first begins with. -/
def twoNames : List Op :=
  [.createTable pairs pairSchema, .addDoc pairs (pairDoc 1 5) true, .createTable [112, 97] pairSchema]

theorem getTables_twoNames : ∃ impl, runSteps step opened twoNames = some impl ∧
    ∃ tables, impl.getTables [] = some tables ∧ ListsTables twoNames impl tables := by
  have hsome : (runSteps step opened twoNames).isSome = true := by decide +kernel
  obtain ⟨impl, hrun⟩ := Option.isSome_iff_exists.mp hsome
  refine ⟨impl, hrun, (getTables_iff hrun).mpr ?_⟩
  rintro name ⟨schema, hmem, -⟩
  simp only [twoNames, List.mem_cons, Op.createTable.injEq, reduceCtorEq, List.not_mem_nil,
    or_false, false_or] at hmem
  rcases hmem with ⟨rfl, -⟩ | ⟨rfl, -⟩
  · decide
  · decide

/-- A table whose name is one byte 255 is not. -/
theorem not_getTables_last : ¬ ∀ ops impl, runSteps step opened ops = some impl →
    ∃ tables, impl.getTables [] = some tables ∧ ListsTables ops impl tables := by
  intro hall
  obtain ⟨tables, hget, hlists⟩ := hall [.createTable [255] pairSchema] _ rfl
  have hempty : (RocksDBImpl.createTable opened [255] pairSchema).2.getTables [] = some [] := by
    decide +kernel
  have hnil : some tables = some [] := hget.symm.trans hempty
  have hin := (hlists.created [255]).mpr ⟨pairSchema, List.mem_cons_self, pairSchema_fixed⟩
  rw [Option.some_inj.mp hnil] at hin
  exact absurd hin List.not_mem_nil

end CxxLab.RocksdbLab
