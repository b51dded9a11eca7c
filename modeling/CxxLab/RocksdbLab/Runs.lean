import CxxLab.RocksdbLab.Catalog

/-!
# What a call can do

`step_cases` is the inversion of `step`: a call changes nothing, creates a table, or writes a batch
of documents. Every invariant of runs is proved from these three.

Table ids are 64-bit numbers that are handed out in order and never checked. The catalogue holds as
long as they do not wrap around, which `tableCount` bounds by the number of calls, and no longer:
`exists_run_createTables` is the run that uses them all up.
-/

set_option autoImplicit false

namespace CxxLab.RocksdbLab

open Std CxxLab.Lib

namespace RocksDBImpl

/-- The tables a call may create. -/
def Op.tables : Op → Nat
  | .createTable _ _ => 1
  | _ => 0

/-- The documents a call may add. -/
def Op.docs : Op → Nat
  | .createTable _ _ => 0
  | .addDoc _ _ _ => 1
  | .addDocs _ docs _ => docs.length

def tableCount (ops : List Op) : Nat := (ops.map Op.tables).sum

def docCount (ops : List Op) : Nat := (ops.map Op.docs).sum

/-- The documents a call writes, and the table it writes them to. -/
def Op.batch : Op → Option (Bytes × List Doc)
  | .addDoc tableName doc true => some (tableName, [doc])
  | .addDocs tableName docs true => some (tableName, docs)
  | _ => none

/-- Not `AddDocs`. -/
def Op.single : Op → Prop
  | .addDocs _ _ _ => False
  | _ => True

/-- `CreateTable` with a schema that numbers `_id` first, or `AddDoc` of a document with the fields
of its table. -/
def Proper (impl : RocksDBImpl) : Op → Prop
  | .createTable _ schema => schema.fixed = true → schema.getFieldId primaryKeyName = some 0
  | .addDoc name doc _ => ∀ schema ∈ impl.cache.getSchema name, doc.Conforms schema
  | .addDocs _ _ _ => False

instance (impl : RocksDBImpl) : ∀ op, Decidable (Proper impl op)
  | .createTable _ schema =>
    inferInstanceAs (Decidable (schema.fixed = true → schema.getFieldId primaryKeyName = some 0))
  | .addDoc name doc _ =>
    inferInstanceAs (Decidable (∀ schema ∈ impl.cache.getSchema name, doc.Conforms schema))
  | .addDocs _ _ _ => .isFalse id

theorem tableCount_concat (ops : List Op) (op : Op) :
    tableCount (ops ++ [op]) = tableCount ops + op.tables := by
  simp [tableCount]

theorem docCount_concat (ops : List Op) (op : Op) :
    docCount (ops ++ [op]) = docCount ops + op.docs := by
  simp [docCount]

theorem tableCount_le {pre ops : List Op} (h : pre <+: ops) : tableCount pre ≤ tableCount ops := by
  obtain ⟨rest, rfl⟩ := h
  simp [tableCount]

theorem docCount_le {pre ops : List Op} (h : pre <+: ops) : docCount pre ≤ docCount ops := by
  obtain ⟨rest, rfl⟩ := h
  simp [docCount]

theorem Op.length_batch {op : Op} {name : Bytes} {docs : List Doc}
    (h : op.batch = some (name, docs)) : docs.length = op.docs := by
  unfold Op.batch at h
  split at h <;> cases h <;> rfl

/-! ## The cases of a step -/

variable {impl impl' : RocksDBImpl}

theorem addBatch_cases (hr : Registry impl) {name : Bytes} {docs : List Doc} {written : Bool}
    {status : Status} (h : impl.addBatch name docs written = some (status, impl')) :
    impl' = impl ∨ (written = true ∧ ∃ tid schema sid offset c,
      Table impl name tid schema sid offset ∧
      docs.foldlM (addDocTo impl.db tid) ⟨[], sid, offset, false⟩ = some c ∧
      impl' = impl.commit tid c) := by
  cases hschema : impl.cache.tschemamap[name]? with
  | none =>
    rw [addBatch, show impl.cache.getSchema name = none from hschema] at h
    cases h
    exact .inl rfl
  | some schema =>
    cases hid : impl.cache.tnamemap[name]? with
    | none =>
      rw [addBatch, show impl.cache.getSchema name = some schema from hschema,
        show impl.cache.getTidByTname name = none from hid] at h
      cases h
      exact .inl rfl
    | some tid =>
      obtain ⟨hseg, hoff⟩ := hr.known name tid hid
      obtain ⟨sid, hsid⟩ := mem_iff_exists.mp hseg
      obtain ⟨offset, hoffset⟩ := mem_iff_exists.mp hoff
      have ht : Table impl name tid schema sid offset := ⟨hid, hschema, hsid, hoffset⟩
      rw [addBatch_eq hr ht] at h
      obtain ⟨c, hrun, hres⟩ := Option.map_eq_some_iff.mp h
      cases written with
      | false =>
        cases hres
        exact .inl rfl
      | true =>
        cases hres
        exact .inr ⟨rfl, tid, schema, sid, offset, c, ht, hrun, rfl⟩

/-- **What a call can do.** -/
theorem step_cases (hr : Registry impl) {op : Op} (h : step impl op = some impl') :
    impl' = impl ∨
    (∃ name schema, op = .createTable name schema ∧ impl.db.read (.table name) = none ∧
      schema.fixed = true ∧ impl' = impl.created name schema) ∨
    (∃ name docs tid schema sid offset c, op.batch = some (name, docs) ∧
      Table impl name tid schema sid offset ∧
      docs.foldlM (addDocTo impl.db tid) ⟨[], sid, offset, false⟩ = some c ∧
      impl' = impl.commit tid c) := by
  cases op with
  | createTable name schema =>
    rw [step, createTable_eq, Option.some_inj] at h
    split at h
    · rename_i hnew
      exact .inr (.inl ⟨name, schema, rfl, hnew.1, hnew.2, h.symm⟩)
    · exact .inl h.symm
  | addDoc name doc written =>
    obtain ⟨⟨status, impl''⟩, hadd, rfl⟩ := Option.map_eq_some_iff.mp h
    unfold addDoc at hadd
    split at hadd
    · cases hadd
      exact .inl rfl
    · rcases addBatch_cases hr hadd with heq | ⟨rfl, tid, schema, sid, offset, c, ht, hrun, heq⟩
      · exact .inl heq
      · exact .inr (.inr ⟨name, [doc], tid, schema, sid, offset, c, rfl, ht, hrun, heq⟩)
  | addDocs name docs written =>
    obtain ⟨⟨status, impl''⟩, hadd, rfl⟩ := Option.map_eq_some_iff.mp h
    rcases addBatch_cases hr hadd with heq | ⟨rfl, tid, schema, sid, offset, c, ht, hrun, heq⟩
    · exact .inl heq
    · exact .inr (.inr ⟨name, docs, tid, schema, sid, offset, c, rfl, ht, hrun, heq⟩)

end RocksDBImpl

open RocksDBImpl

variable {impl impl' : RocksDBImpl}

theorem Registry.step {op : Op} (hr : Registry impl) (h : step impl op = some impl') :
    Registry impl' := by
  rcases step_cases hr h with rfl | ⟨name, schema, rfl, -, -, rfl⟩ |
    ⟨name, docs, tid, schema, sid, offset, c, -, ht, hrun, rfl⟩
  · exact hr
  · exact hr.created schema
  · exact hr.commit ht ((hr.sound ht).addDocs hrun)

theorem Registry.run {ops : List Op} (hrun : runSteps RocksDBImpl.step opened ops = some impl) :
    Registry impl :=
  runSteps_inv (I := Registry) (fun _ _ _ hr hstep => hr.step hstep) Catalog.opened.registry hrun

/-- **Every call keeps the catalogue**, until the table ids run out. -/
theorem Catalog.step {op : Op} (hc : Catalog impl) (h : step impl op = some impl')
    (hroom : impl.cache.tid.toNat + op.tables < 2 ^ 64) :
    Catalog impl' ∧ impl'.cache.tid.toNat ≤ impl.cache.tid.toNat + op.tables := by
  rcases step_cases hc.registry h with rfl | ⟨name, schema, rfl, hnew, hfixed, rfl⟩ |
    ⟨name, docs, tid, schema, sid, offset, c, -, ht, hrun, rfl⟩
  · exact ⟨hc, Nat.le_add_right _ _⟩
  · exact ⟨hc.created hnew hfixed hroom, Nat.le_of_eq (Catalog.toNat_add_one hroom)⟩
  · exact ⟨hc.commit ht ((hc.registry.sound ht).addDocs hrun), Nat.le_add_right _ _⟩

/-! ## A table to try things on -/

/-- Two numbers, `_id` and `a`. -/
def pairSchema : DocSchema :=
  (DocSchema.new.addLongField primaryKeyName 0 |>.addLongField [97] 0).build

/-- A document with these two numbers. -/
def pairDoc (pk a : Int64) : Doc :=
  let d := Doc.new pk pairSchema
  (Doc.build { d.toDocSchema.addLongField [97] a with schema := d.schema }).2

/-- The name of a table. -/
def pairs : Bytes := [112, 97, 105, 114, 115]

theorem pairSchema_fixed : pairSchema.fixed = true := rfl

theorem pairSchema_small :
    pairSchema.fieldsSchema.size ≤ 255 ∧ ∀ field ∈ pairSchema.fieldsSchema, field.length ≤ 255 := by
  refine ⟨by decide +kernel, fun field hfield => ?_⟩
  have hkeys : ∀ field ∈ pairSchema.fieldsSchema.keys, field.length ≤ 255 := by decide +kernel
  exact hkeys field (ExtTreeMap.mem_keys.mpr hfield)

theorem pairDoc_conforms (pk a : Int64) : (pairDoc pk a).Conforms pairSchema := by
  refine ⟨rfl, rfl, ?_, ?_⟩
  · intro f hf
    have hf : f ∈ [_, _] := hf
    simp only [List.mem_cons, List.not_mem_nil, or_false] at hf
    rcases hf with rfl | rfl
    · exact (by decide +kernel : primaryKeyName ∈ pairSchema.fieldsSchema)
    · exact (by decide +kernel : [97] ∈ pairSchema.fieldsSchema)
  · intro name hname
    have hname : name ∈ [primaryKeyName, [97]] := hname
    exact hname

/-- A table with one document. -/
def firstRun : List Op := [.createTable pairs pairSchema, .addDoc pairs (pairDoc 1 5) true]

/-! ## A run that uses up the table ids -/

/-- Calls that create `n` tables, named by numbers of eight bytes. -/
def createTables (schema : DocSchema) (n : Nat) : List Op :=
  (List.range n).map fun i => .createTable (BigEndian.toBytes 8 i) schema

/-- What the run has done after `n` tables: it has moved the table id on by `n`, added the names and
left all others and all documents alone. -/
structure AfterCreate (impl : RocksDBImpl) (n : Nat) (impl' : RocksDBImpl) : Prop where
  tid : impl'.cache.tid = impl.cache.tid + UInt64.ofNat n
  docs : ∀ k : Key, k.ofDoc = true → impl'.db.read k = impl.db.read k
  added : ∀ i < n, BigEndian.toBytes 8 i ∈ impl'.cache.tnamemap
  others : ∀ name, (∀ i < n, name ≠ BigEndian.toBytes 8 i) →
    impl'.db.read (.table name) = impl.db.read (.table name) ∧
      impl'.cache.tnamemap[name]? = impl.cache.tnamemap[name]? ∧
      impl'.cache.tschemamap[name]? = impl.cache.tschemamap[name]?

theorem AfterCreate.succ {n : Nat} (h : AfterCreate impl n impl') (schema : DocSchema) :
    AfterCreate impl (n + 1) (impl'.created (BigEndian.toBytes 8 n) schema) := by
  constructor
  · show impl'.cache.tid + 1 = _
    rw [h.tid, UInt64.ofNat_add, UInt64.add_assoc]
    rfl
  · intro k hk
    rw [Catalog.read_created_ofDoc schema hk, h.docs k hk]
  · intro i hi
    refine ExtTreeMap.mem_insert.mpr ?_
    rcases Nat.lt_succ_iff_lt_or_eq.mp hi with hi | rfl
    · exact .inr (h.added i hi)
    · exact .inl Std.compare_self
  · intro name hname
    have hne := hname n (Nat.lt_succ_self n)
    obtain ⟨hread, hnames, hschemas⟩ := h.others name fun i hi => hname i (Nat.lt_succ_of_lt hi)
    refine ⟨?_, ?_, ?_⟩
    · simp [Catalog.read_created, hne, hread]
    · rw [RocksDBImpl.created, getElem?_insert_eq, if_neg hne, hnames]
    · rw [RocksDBImpl.created, getElem?_insert_eq, if_neg hne, hschemas]

/-- **Up to `2 ^ 64` tables can be created.** -/
theorem exists_run_createTables {schema : DocSchema} (hfixed : schema.fixed = true)
    (hnew : ∀ i, impl.db.read (.table (BigEndian.toBytes 8 i)) = none) {n : Nat} :
    n ≤ 2 ^ 64 → ∃ impl', runSteps step impl (createTables schema n) = some impl' ∧
      AfterCreate impl n impl' := by
  induction n with
  | zero =>
    intro _
    refine ⟨impl, rfl, ?_, fun _ _ => rfl, fun i hi => absurd hi (Nat.not_lt_zero i),
      fun _ _ => ⟨rfl, rfl, rfl⟩⟩
    exact (UInt64.add_zero _).symm
  | succ n ih =>
    intro hn
    obtain ⟨impl', hrun, h⟩ := ih (Nat.le_of_succ_le hn)
    have hname : impl'.db.read (.table (BigEndian.toBytes 8 n)) = none := by
      rw [(h.others _ fun i hi heq => ?_).1, hnew]
      have := congrArg BigEndian.ofBytes heq
      rw [BigEndian.ofBytes_toBytes_of_lt (Nat.lt_of_succ_le hn),
        BigEndian.ofBytes_toBytes_of_lt (Nat.lt_trans hi (Nat.lt_of_succ_le hn))] at this
      exact absurd hi (this ▸ Nat.lt_irrefl _)
    refine ⟨_, ?_, h.succ schema⟩
    rw [createTables, List.range_succ, List.map_append, runSteps_append]
    refine Option.bind_eq_some_iff.mpr ⟨impl', hrun, ?_⟩
    rw [List.map_singleton, runSteps, step, createTable_eq, if_pos ⟨hname, hfixed⟩]
    rfl

theorem mem_createTables {schema : DocSchema} {n : Nat} {op : Op} (h : op ∈ createTables schema n) :
    ∃ name, op = .createTable name schema := by
  obtain ⟨i, -, rfl⟩ := List.mem_map.mp h
  exact ⟨_, rfl⟩

/-- **A table id that is handed out again** takes the cursor of its table back to the beginning. -/
theorem exists_run_reuse {schema schema' : DocSchema} {name : Bytes} {tid : UInt64}
    (hfixed : schema.fixed = true) (hid : impl.cache.tnamemap[name]? = some tid)
    (hschema : impl.cache.tschemamap[name]? = some schema')
    (hname : name.length ≠ 1 ∧ name.length ≠ 8)
    (hnew : ∀ name, name.length = 1 ∨ name.length = 8 → impl.db.read (.table name) = none) :
    ∃ ops impl', (∀ op ∈ ops, ∃ name, op = .createTable name schema) ∧
      runSteps step impl ops = some impl' ∧ Table impl' name tid schema' 0 0 ∧
      ∀ k : Key, k.ofDoc = true → impl'.db.read k = impl.db.read k := by
  have hlength : ∀ i, (BigEndian.toBytes 8 i).length = 8 := fun i => BigEndian.length_toBytes 8 i
  have hne : ∀ {name : Bytes}, name.length ≠ 8 → ∀ i, name ≠ BigEndian.toBytes 8 i := by
    rintro name hlen i rfl
    exact hlen (hlength i)
  obtain ⟨impl₁, hrun, hafter⟩ := exists_run_createTables hfixed
    (fun i => hnew _ (.inr (hlength i))) (Nat.le_of_lt (tid - impl.cache.tid).toNat_lt)
  have htid : impl₁.cache.tid = tid := by
    rw [hafter.tid, UInt64.ofNat_toNat, UInt64.add_comm, UInt64.sub_add_cancel]
  obtain ⟨-, hid₁, hschema₁⟩ := hafter.others name fun i _ => hne hname.2 i
  obtain ⟨hread, -, -⟩ := hafter.others [0] fun i _ => hne (by decide) i
  have hdiff : name ≠ [0] := by
    rintro rfl
    exact hname.1 rfl
  refine ⟨createTables schema (tid - impl.cache.tid).toNat ++ [.createTable [0] schema],
    impl₁.created [0] schema, fun op hop => ?_, ?_, ?_, fun k hk => ?_⟩
  · rcases List.mem_append.mp hop with hop | hop
    · exact mem_createTables hop
    · exact ⟨_, List.mem_singleton.mp hop⟩
  · rw [runSteps_concat, hrun, Option.bind_some, step, createTable_eq,
      if_pos ⟨hread.trans (hnew _ (.inl rfl)), hfixed⟩]
  · constructor <;> simp only [RocksDBImpl.created, getElem?_insert_eq, htid, if_true]
    · rw [if_neg hdiff, hid₁, hid]
    · rw [if_neg hdiff, hschema₁, hschema]
  · rw [Catalog.read_created_ofDoc schema hk, hafter.docs k hk]

end CxxLab.RocksdbLab
