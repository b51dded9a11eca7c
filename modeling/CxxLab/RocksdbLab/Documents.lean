import CxxLab.RocksdbLab.Locations

/-!
# One live location for each document

What a `RocksDBImpl` is for is `Collections`: tables of documents by uid, where adding a document
replaces the one with its uid. The store has these documents spread over four families, and moves
them around. `Stored` says that it has them: each uid has a location, the fields of its document
are at this location, and *nothing is left at any other one*.

The results are about runs of `AddDoc`. A batch breaks the last part.
-/

set_option autoImplicit false

namespace CxxLab.RocksdbLab

open Std CxxLab.Lib RocksDBImpl

/-! ## What it is for -/

/-- The serialized fields of a document. -/
abbrev Fields := ExtTreeMap UInt8 Bytes

/-- Tables by name, documents by uid. -/
abbrev Collections := ExtTreeMap Bytes (ExtTreeMap Bytes Fields)

/-- A call, for built documents. A table is created once; a document replaces the one before it. -/
def Collections.step (cs : Collections) : Op → Collections
  | .createTable name schema =>
    if name ∈ cs ∨ schema.fixed = false then cs else cs.insert name ∅
  | .addDoc name doc true =>
    match cs[name]?, doc.serialize.bind fun m => m[(0 : UInt8)]?.map fun uid => (uid, m) with
    | some docs, some (uid, m) => cs.insert name (docs.insert uid m)
    | _, _ => cs
  | _ => cs

/-- **The documents of a run**: for each table and uid the last one added. -/
def collections (ops : List Op) : Collections := ops.foldl Collections.step ∅

theorem collections_concat (ops : List Op) (op : Op) :
    collections (ops ++ [op]) = (collections ops).step op := List.foldl_concat ..

/-! ## One table -/

/-- **A store has the documents of a table** with `n` fields. -/
structure Stored (S : Store) (tid : UInt64) (n : Nat) (docs : ExtTreeMap Bytes Fields) : Prop where
  uids : ∀ uid, (S.read (.uidIdMapping tid uid)).isSome = true ↔ uid ∈ docs
  fields : ∀ (uid : Bytes) m, docs[uid]? = some m → ∀ fid, fid ∈ m ↔ fid.toNat < n
  values : ∀ (uid : Bytes) m s o, docs[uid]? = some m →
    S.read (.uidIdMapping tid uid) = some (addr s o) →
    ∀ fid, S.read (.fieldValue tid s o fid) = m[fid]?
  live : ∀ s o fid v, S.read (.fieldValue tid s o fid) = some v →
    ∃ uid, S.read (.uidIdMapping tid uid) = some (addr s o)

namespace Stored

variable {S : Store} {tid sid offset : UInt64} {n : Nat} {docs : ExtTreeMap Bytes Fields}

theorem congr {T : Store} (h : Stored S tid n docs)
    (huid : ∀ uid, T.read (.uidIdMapping tid uid) = S.read (.uidIdMapping tid uid))
    (hvalue : ∀ s o f, T.read (.fieldValue tid s o f) = S.read (.fieldValue tid s o f)) :
    Stored T tid n docs := by
  constructor
  · simpa only [huid] using h.uids
  · exact h.fields
  · simpa only [huid, hvalue] using h.values
  · simpa only [huid, hvalue] using h.live

theorem empty (huid : ∀ uid, S.read (.uidIdMapping tid uid) = none)
    (hvalue : ∀ s o f, S.read (.fieldValue tid s o f) = none) : Stored S tid n ∅ := by
  refine ⟨fun uid => ?_, fun uid m hm => ?_, fun uid m s o hm => ?_, fun s o fid v hv => ?_⟩
  · rw [huid]
    exact ⟨fun h => (by cases h), fun h => absurd h ExtTreeMap.not_mem_empty⟩
  · rw [ExtTreeMap.getElem?_empty] at hm
    cases hm
  · rw [ExtTreeMap.getElem?_empty] at hm
    cases hm
  · rw [hvalue] at hv
    cases hv

theorem exists_doc (h : Stored S tid n docs) {uid a : Bytes}
    (hread : S.read (.uidIdMapping tid uid) = some a) : ∃ m, docs[uid]? = some m :=
  mem_iff_exists.mp ((h.uids uid).mp (by rw [hread]; rfl))

/-- No record has a field id that is not in use. -/
theorem fid_lt (h : Stored S tid n docs) {s o : UInt64} {fid : UInt8} {v : Bytes}
    (hv : S.read (.fieldValue tid s o fid) = some v) : fid.toNat < n := by
  obtain ⟨uid, huid⟩ := h.live s o fid v hv
  obtain ⟨m, hm⟩ := h.exists_doc huid
  rw [h.values uid m s o hm huid] at hv
  exact (h.fields uid m hm fid).mp (mem_iff_exists.mpr ⟨v, hv⟩)

/-- **The assertion in `AddDoc` does not fail.** -/
theorem replaceable (h : Stored S tid n docs) (hlocated : Located S tid) {m : Fields}
    (hm : ∀ fid, fid ∈ m ↔ fid.toNat < n) : Replaceable S tid sid offset m := by
  intro fid hfid s o hold
  rcases placement_cases sid offset m[(0 : UInt8)]? hlocated with
    ⟨-, hp⟩ | ⟨o', -, hp⟩ | ⟨s', o', -, hrecord, hp⟩ <;> rw [hp] at hold <;> cases hold
  obtain ⟨uid, -, hread⟩ := Option.bind_eq_some_iff.mp hrecord
  obtain ⟨m₀, hm₀⟩ := h.exists_doc hread
  rw [h.values uid m₀ s o hm₀ hread]
  exact mem_iff_exists.mp ((h.fields uid m₀ hm₀ fid).mpr ((hm fid).mp hfid))

/-- **One document.** -/
theorem doc (h : Stored S tid n docs) (hplaced : Placed S tid sid offset) {m : Fields} {uid : Bytes}
    (hm : ∀ fid, fid ∈ m ↔ fid.toNat < n) (huid : m[(0 : UInt8)]? = some uid) :
    Stored (S.apply (docWrites S tid sid offset m)) tid n (docs.insert uid m) := by
  have hlocated := hplaced.located
  have hold : Replaceable S tid sid offset m := h.replaceable hlocated hm
  have hreadUid := read_docWrites_uid hlocated hold S
  have hreadValue := read_docWrites_value hlocated hold S
  have hother : ∀ u s o, u ≠ uid → _ := fun u s o hne =>
    @hplaced.placement_ne _ _ _ _ (some uid) u s o fun heq => hne (Option.some_inj.mp heq).symm
  have hown := fun s o => @hplaced.placement_own _ _ _ _ uid s o
  rw [huid] at hreadUid hreadValue
  simp only [Option.some_inj] at hreadUid
  generalize placement S tid sid offset (some uid) = p at *
  have hnone : ∀ s o f, f ∉ m → S.read (.fieldValue tid s o f) = none := by
    intro s o f hf
    by_contra hne
    obtain ⟨v, hv⟩ := Option.ne_none_iff_exists'.mp hne
    exact hf ((hm f).mpr (h.fid_lt hv))
  refine ⟨fun u => ?_, fun u m' hm' => ?_, fun u m' s o hm' hu f => ?_, fun s o f v hv => ?_⟩
  · rw [hreadUid, ExtTreeMap.mem_insert, Std.compare_eq_iff_eq, ← h.uids u]
    by_cases heq : uid = u
    · simp [heq]
    · simp [heq]
  · rw [getElem?_insert_eq] at hm'
    split at hm'
    · cases hm'
      exact hm
    · exact h.fields u m' hm'
  · rw [hreadUid] at hu
    rw [getElem?_insert_eq] at hm'
    rw [hreadValue]
    by_cases heq : u = uid
    · rw [if_pos heq.symm] at hu
      rw [if_pos heq] at hm'
      cases hm'
      obtain ⟨rfl, rfl⟩ := addr_inj.mp (Option.some_inj.mp hu)
      by_cases hf : f ∈ m
      · rw [if_pos ⟨hf, rfl, rfl⟩]
      · rw [if_neg (fun hc => hf hc.1), if_neg (fun hc => hf hc.1), hnone _ _ f hf]
        exact (ExtTreeMap.getElem?_eq_none hf).symm
    · rw [if_neg (Ne.symm heq)] at hu
      rw [if_neg heq] at hm'
      obtain ⟨hto, hfrom⟩ := hother u s o heq hu
      rw [if_neg (fun hc => hto hc.2), if_neg (fun hc => hfrom hc.2)]
      exact h.values u m' s o hm' hu f
  · rw [hreadValue] at hv
    by_cases hto : f ∈ m ∧ s = sid ∧ o = p.offsetUsed
    · refine ⟨uid, ?_⟩
      rw [hreadUid, if_pos rfl, hto.2.1, hto.2.2]
    · rw [if_neg hto] at hv
      split at hv
      · cases hv
      · rename_i hfrom
        obtain ⟨u, hu⟩ := h.live s o f v hv
        by_cases heq : u = uid
        · -- Its own location is the new one, or has been cleared.
          have hf := (hm f).mpr (h.fid_lt hv)
          rcases hown s o (heq ▸ hu) with hin | hmove
          · exact absurd ⟨hf, hin⟩ hto
          · exact absurd ⟨hf, hmove⟩ hfrom
        · exact ⟨u, by rw [hreadUid, if_neg (Ne.symm heq), hu]⟩

end Stored

/-! ## All tables -/

section Tables

variable {impl : RocksDBImpl} {name name' : Bytes} {tid tid' sid sid' offset offset' : UInt64}
  {schema schema' : DocSchema}

/-- The tables after a new one. -/
theorem Table.of_created (hc : Catalog impl)
    (ht : Table (impl.created name schema) name' tid' schema' sid' offset') :
    (name' = name ∧ tid' = impl.cache.tid) ∨
      (name' ≠ name ∧ Table impl name' tid' schema' sid' offset') := by
  have hid := ht.id
  have hschema := ht.schema
  have hsegment := ht.segment
  have hoffset := ht.offset
  simp only [RocksDBImpl.created, getElem?_insert_eq] at hid hschema hsegment hoffset
  by_cases hname : name' = name
  · rw [if_pos hname] at hid
    exact .inl ⟨hname, (Option.some_inj.mp hid).symm⟩
  · rw [if_neg hname] at hid hschema
    have hne : tid' ≠ impl.cache.tid := by
      rintro rfl
      exact absurd (hc.name_lt hid) (UInt64.lt_irrefl _)
    rw [if_neg hne] at hsegment hoffset
    exact .inr ⟨hname, hid, hschema, hsegment, hoffset⟩

/-- The tables after a batch. -/
theorem Table.of_commit (hc : Catalog impl) (ht : Table impl name tid schema sid offset) {c : Cursor}
    (ht' : Table (impl.commit tid c) name' tid' schema' sid' offset') :
    (name' = name ∧ tid' = tid ∧ schema' = schema) ∨
      (name' ≠ name ∧ tid' ≠ tid ∧ Table impl name' tid' schema' sid' offset') := by
  have hid : impl.cache.tnamemap[name']? = some tid' := ht'.id
  have hschema : impl.cache.tschemamap[name']? = some schema' := ht'.schema
  have hsegment := ht'.segment
  have hoffset := ht'.offset
  simp only [RocksDBImpl.commit, getElem?_insert_eq] at hsegment hoffset
  by_cases hname : name' = name
  · subst hname
    exact .inl ⟨rfl, Option.some_inj.mp (hid.symm.trans ht.id),
      Option.some_inj.mp (hschema.symm.trans ht.schema)⟩
  · have hne : tid' ≠ tid := by
      rintro rfl
      exact hname (hc.name_inj hid ht.id)
    rw [if_neg hne] at hsegment hoffset
    exact .inr ⟨hname, hne, hid, hschema, hsegment, hoffset⟩

end Tables

/-- **A `RocksDBImpl` has the documents of a run.** -/
structure Refines (ops : List Op) (impl : RocksDBImpl) : Prop where
  layout : Layout impl (docCount ops)
  names : ∀ name, name ∈ collections ops ↔ name ∈ impl.cache.tnamemap
  sized : ∀ (name : Bytes) s, impl.cache.tschemamap[name]? = some s → 0 < s.fieldsSchema.size
  stored : ∀ name tid schema sid offset docs, Table impl name tid schema sid offset →
    (collections ops)[name]? = some docs → Stored impl.db tid schema.fieldsSchema.size docs
  fresh : ∀ tid, ¬tid < impl.cache.tid → ∀ s o f, impl.db.read (.fieldValue tid s o f) = none

namespace Refines

variable {ops : List Op} {impl : RocksDBImpl} {op : Op} {name : Bytes}

theorem opened : Refines [] opened := by
  refine ⟨Layout.opened, fun name => Iff.rfl, fun name s hs => (by cases hs),
    fun name tid schema sid offset docs ht => (by cases ht.id), fun tid _ s o f => ?_⟩
  rw [opened_read, if_neg (by simp)]

theorem same (h : Refines ops impl) (hop : (collections ops).step op = collections ops) :
    Refines (ops ++ [op]) impl := by
  rw [← collections_concat] at hop
  refine ⟨h.layout.mono ?_, ?_, h.sized, ?_, h.fresh⟩
  · rw [docCount_concat]
    exact Nat.le_add_right _ _
  · rw [hop]
    exact h.names
  · rw [hop]
    exact h.stored

theorem created (h : Refines ops impl) {schema : DocSchema}
    (hlayout : Layout (impl.created name schema) (docCount (ops ++ [.createTable name schema])))
    (hnew : impl.db.read (.table name) = none) (hfixed : schema.fixed = true)
    (hroom : impl.cache.tid.toNat + 1 < 2 ^ 64)
    (hid : schema.getFieldId primaryKeyName = some 0) :
    Refines (ops ++ [.createTable name schema]) (impl.created name schema) := by
  have hnot : name ∉ impl.cache.tnamemap := h.layout.catalog.read_table_eq_none.mp hnew
  have hcollections : collections (ops ++ [.createTable name schema]) =
      (collections ops).insert name ∅ := by
    rw [collections_concat, Collections.step, if_neg]
    simp [hfixed, h.names, hnot]
  have hread : ∀ k : Key, k.ofDoc = true →
      (impl.created name schema).db.read k = impl.db.read k := fun k hk =>
    Catalog.read_created_ofDoc schema hk
  refine ⟨hlayout, fun name' => ?_, fun name' s hs => ?_,
    fun name' tid schema' sid offset docs ht hdocs => ?_, fun tid htid s o f => ?_⟩
  · rw [hcollections, ExtTreeMap.mem_insert, h.names]
    exact ExtTreeMap.mem_insert.symm
  · rw [RocksDBImpl.created, getElem?_insert_eq] at hs
    split at hs
    · cases hs
      exact (DocSchema.exists_fieldId_iff hfixed).mp ⟨_, hid⟩
    · exact h.sized name' s hs
  · rw [hcollections, getElem?_insert_eq] at hdocs
    rcases Table.of_created h.layout.catalog ht with ⟨hname, rfl⟩ | ⟨hname, hold⟩
    · rw [if_pos hname] at hdocs
      cases hdocs
      have hblank : ¬impl.cache.tid < impl.cache.tid := UInt64.lt_irrefl _
      refine Stored.empty (fun uid => ?_) fun s o f => ?_
      · rw [hread _ rfl]
        exact h.layout.fresh _ hblank uid
      · rw [hread _ rfl]
        exact h.fresh _ hblank s o f
    · rw [if_neg hname] at hdocs
      exact (h.stored name' tid schema' sid offset docs hold hdocs).congr
        (fun _ => hread _ rfl) fun _ _ _ => hread _ rfl
  · rw [hread _ rfl]
    refine h.fresh tid (fun hlt => htid ?_) s o f
    exact (Catalog.lt_add_one hroom).mpr (.inr hlt)

/-- The document is added, and the assertion does not fail. -/
theorem addDocTo (h : Refines ops impl) {doc : Doc} {tid sid offset : UInt64} {schema : DocSchema}
    (ht : Table impl name tid schema sid offset) (hdoc : doc.Conforms schema) :
    ∃ m uid docs, doc.serialize = some m ∧ m[(0 : UInt8)]? = some uid ∧
      (∀ fid, fid ∈ m ↔ fid.toNat < schema.fieldsSchema.size) ∧
      (collections ops)[name]? = some docs ∧
      addDocTo impl.db tid ⟨[], sid, offset, false⟩ doc =
        some (Cursor.afterDoc impl.db tid m ⟨[], sid, offset, false⟩) := by
  have hfixed := h.layout.catalog.built name schema ht.schema
  obtain ⟨m, hm, hfields⟩ := hdoc.serialize hfixed
  obtain ⟨uid, huid⟩ := mem_iff_exists.mp ((hfields 0).mpr (h.sized name schema ht.schema))
  obtain ⟨docs, hdocs⟩ := mem_iff_exists.mp ((h.names name).mpr (mem_iff_exists.mpr ⟨tid, ht.id⟩))
  have hlocated := (h.layout.table ht).located
  have hstored := h.stored name tid schema sid offset docs ht hdocs
  exact ⟨m, uid, docs, hm, huid, hfields, hdocs,
    (addDocTo_eq_some hlocated).mpr ⟨m, hm, hstored.replaceable hlocated hfields, rfl⟩⟩

theorem commit (h : Refines ops impl) {doc : Doc} {tid sid offset : UInt64} {schema : DocSchema}
    {m : Fields} {uid : Bytes} {docs : ExtTreeMap Bytes Fields} {c : Cursor}
    (ht : Table impl name tid schema sid offset)
    (hlayout : Layout (impl.commit tid c) (docCount (ops ++ [.addDoc name doc true])))
    (hm : doc.serialize = some m) (huid : m[(0 : UInt8)]? = some uid)
    (hfields : ∀ fid, fid ∈ m ↔ fid.toNat < schema.fieldsSchema.size)
    (hdocs : (collections ops)[name]? = some docs)
    (hc : c = Cursor.afterDoc impl.db tid m ⟨[], sid, offset, false⟩)
    (hrun : [doc].foldlM (RocksdbLab.addDocTo impl.db tid) ⟨[], sid, offset, false⟩ = some c) :
    Refines (ops ++ [.addDoc name doc true]) (impl.commit tid c) := by
  have hplaced := h.layout.table ht
  have hcollections : collections (ops ++ [.addDoc name doc true]) =
      (collections ops).insert name (docs.insert uid m) := by
    rw [collections_concat, Collections.step, hdocs, hm]
    simp only [Option.bind_some, huid, Option.map_some]
  have hother : ∀ t, t ≠ tid → ∀ k : Key, k.docTable = some t →
      (impl.commit tid c).db.read k = impl.db.read k := fun t hne k hk =>
    foldlM_addDocTo_frame hplaced.located hrun hk hne
  refine ⟨hlayout, fun name' => ?_, h.sized, fun name' tid' schema' sid' offset' docs' ht' hdocs' => ?_,
    fun t hnot s o f => ?_⟩
  · rw [hcollections, ExtTreeMap.mem_insert, Std.compare_eq_iff_eq, h.names]
    show _ ↔ name' ∈ impl.cache.tnamemap
    refine or_iff_right_of_imp ?_
    rintro rfl
    exact mem_iff_exists.mpr ⟨tid, ht.id⟩
  · rw [hcollections, getElem?_insert_eq] at hdocs'
    rcases Table.of_commit h.layout.catalog ht ht' with ⟨hname, rfl, rfl⟩ | ⟨hname, hne, hold⟩
    · rw [if_pos hname] at hdocs'
      cases hdocs'
      rw [hc]
      exact (h.stored name tid' schema' sid offset docs ht hdocs).doc hplaced hfields huid
    · rw [if_neg hname] at hdocs'
      exact (h.stored name' tid' schema' sid' offset' docs' hold hdocs').congr
        (fun _ => hother tid' hne _ rfl) fun _ _ _ => hother tid' hne _ rfl
  · have hne : t ≠ tid := by
      rintro rfl
      exact hnot (h.layout.catalog.name_lt ht.id)
    rw [hother t hne _ rfl]
    exact h.fresh t hnot s o f

/-- **One call.** -/
theorem step (h : Refines ops impl) (hproper : Proper impl op)
    (htables : impl.cache.tid.toNat + op.tables < 2 ^ 64)
    (hdocs : docCount (ops ++ [op]) < slotLimit) :
    ∃ impl', step impl op = some impl' ∧ Refines (ops ++ [op]) impl' := by
  have hlayout : ∀ {impl'}, RocksDBImpl.step impl op = some impl' →
      Layout impl' (docCount (ops ++ [op])) := by
    intro impl' hstep
    rw [docCount_concat] at hdocs ⊢
    exact h.layout.step hstep htables hdocs
  cases op with
  | addDocs name docs written => cases hproper
  | createTable name schema =>
    have hstep := @createTable_eq impl name schema
    split at hstep
    · rename_i hnew
      have hone : RocksDBImpl.step impl (.createTable name schema) =
          some (impl.created name schema) := congrArg some hstep
      exact ⟨_, hone, h.created (hlayout hone) hnew.1 hnew.2 htables (hproper hnew.2)⟩
    · rename_i hold
      refine ⟨impl, congrArg some hstep, h.same ?_⟩
      rw [Collections.step, if_pos]
      rw [not_and', h.layout.catalog.read_table_eq_none, not_not] at hold
      rw [h.names, or_iff_not_imp_right, Bool.not_eq_false]
      exact hold
  | addDoc name doc written =>
    cases hschema : impl.cache.getSchema name with
    | none =>
      have hname : name ∉ impl.cache.tnamemap := by
        rw [← h.layout.catalog.schemas, mem_iff_exists]
        rintro ⟨s, hs⟩
        cases hschema.symm.trans hs
      refine ⟨impl, ?_, h.same ?_⟩
      · rw [RocksDBImpl.step, addDoc, hschema, if_neg (by simp), addBatch, hschema]
        rfl
      · rw [← h.names, not_mem_iff] at hname
        unfold Collections.step
        split <;> simp_all
    | some schema =>
      obtain ⟨tid, sid, offset, ht⟩ := h.layout.catalog.table hschema
      have hdoc := hproper schema hschema
      obtain ⟨m, uid, docs, hm, huid, hfields, hdocs', hadd⟩ := h.addDocTo ht hdoc
      have hrun : [doc].foldlM (RocksdbLab.addDocTo impl.db tid) ⟨[], sid, offset, false⟩ =
          some (Cursor.afterDoc impl.db tid m ⟨[], sid, offset, false⟩) := by
        rw [List.foldlM_cons, hadd]
        rfl
      have hstep : RocksDBImpl.step impl (.addDoc name doc written) =
          some (if written then
            impl.commit tid (Cursor.afterDoc impl.db tid m ⟨[], sid, offset, false⟩) else impl) := by
        rw [RocksDBImpl.step, addDoc, if_neg (by simp [hdoc.built]),
          addBatch_eq h.layout.catalog.registry ht, hrun]
        cases written <;> rfl
      cases written with
      | false => exact ⟨impl, hstep, h.same rfl⟩
      | true => exact ⟨_, hstep, h.commit ht (hlayout hstep) hm huid hfields hdocs' rfl hrun⟩

end Refines

/-! ## Every run -/

/-- **One live location for each document** of a table with `n` fields. -/
structure LiveLocations (S : Store) (tid sid offset : UInt64) (n : Nat)
    (docs : ExtTreeMap Bytes Fields) : Prop where
  distinct : ∀ uid uid' a, S.read (.uidIdMapping tid uid) = some a →
    S.read (.uidIdMapping tid uid') = some a → uid = uid'
  below : ∀ uid a, S.read (.uidIdMapping tid uid) = some a →
    ∃ s o, a = addr s o ∧ (s < sid ∨ s = sid ∧ o < offset) ∧ o < segmentSize
  live : ∀ s o, (∃ fid v, S.read (.fieldValue tid s o fid) = some v) ↔
    ∃ uid, S.read (.uidIdMapping tid uid) = some (addr s o)
  fields : ∀ uid s o, S.read (.uidIdMapping tid uid) = some (addr s o) →
    ∃ m, docs[uid]? = some m ∧ (∀ fid, S.read (.fieldValue tid s o fid) = m[fid]?) ∧
      ∀ fid, (S.read (.fieldValue tid s o fid)).isSome = true ↔ fid.toNat < n

/-- All tables of a `RocksDBImpl` have the documents of a run, each at one location.

The documents are those of the calls, in `collections`: by table and uid, with the fields of the
last one that was added. Nothing in it looks at the store. -/
def AllLive (ops : List Op) (impl : RocksDBImpl) : Prop :=
  ∀ name tid schema sid offset, Table impl name tid schema sid offset →
    ∃ docs, (collections ops)[name]? = some docs ∧
      LiveLocations impl.db tid sid offset schema.fieldsSchema.size docs

theorem Stored.liveLocations {S : Store} {tid sid offset : UInt64} {n : Nat}
    {docs : ExtTreeMap Bytes Fields} (h : Stored S tid n docs) (hplaced : Placed S tid sid offset)
    (hn : 0 < n) : LiveLocations S tid sid offset n docs := by
  have hfields : ∀ uid s o, S.read (.uidIdMapping tid uid) = some (addr s o) →
      ∃ m, docs[uid]? = some m ∧ (∀ fid, S.read (.fieldValue tid s o fid) = m[fid]?) ∧
        ∀ fid, (S.read (.fieldValue tid s o fid)).isSome = true ↔ fid.toNat < n := by
    intro uid s o huid
    obtain ⟨m, hm⟩ := h.exists_doc huid
    have hvalues := h.values uid m s o hm huid
    refine ⟨m, hm, hvalues, fun fid => ?_⟩
    rw [hvalues, ← ExtTreeMap.mem_iff_isSome_getElem?, h.fields uid m hm]
  refine ⟨hplaced.inj, fun uid a hread => ?_, fun s o => ⟨fun ⟨fid, v, hv⟩ => h.live s o fid v hv, ?_⟩,
    hfields⟩
  · obtain ⟨s, o, rfl, ho, hlt⟩ := hplaced.below uid a hread
    exact ⟨s, o, rfl, (slot_lt_iff ho hplaced.offset_lt).mp hlt, ho⟩
  · rintro ⟨uid, huid⟩
    obtain ⟨m, -, -, hsome⟩ := hfields uid s o huid
    exact ⟨0, Option.isSome_iff_exists.mp ((hsome 0).mpr hn)⟩

theorem Refines.allLive {ops : List Op} {impl : RocksDBImpl} (h : Refines ops impl) :
    AllLive ops impl := by
  intro name tid schema sid offset ht
  obtain ⟨docs, hdocs⟩ := mem_iff_exists.mp ((h.names name).mpr (mem_iff_exists.mpr ⟨tid, ht.id⟩))
  exact ⟨docs, hdocs, (h.stored name tid schema sid offset docs ht hdocs).liveLocations
    (h.layout.table ht) (h.sized name schema ht.schema)⟩

theorem Refines.run {ops : List Op}
    (hproper : Along RocksDBImpl.step Proper RocksDBImpl.opened ops)
    (htables : tableCount ops < 2 ^ 64) (hdocs : docCount ops < slotLimit) :
    ∃ impl, runSteps RocksDBImpl.step RocksDBImpl.opened ops = some impl ∧ Refines ops impl := by
  obtain ⟨impl, hrun, -, h⟩ := hproper.run_history (I := fun ops impl =>
      impl.cache.tid.toNat ≤ tableCount ops ∧ Refines ops impl)
    ⟨Nat.zero_le _, opened⟩ fun pre s op hpre ⟨htid, h⟩ hop => by
      have htables := Nat.lt_of_le_of_lt (tableCount_le hpre) htables
      rw [tableCount_concat] at htables
      obtain ⟨s', hstep, h'⟩ := h.step hop (by omega) (Nat.lt_of_le_of_lt (docCount_le hpre) hdocs)
      refine ⟨s', hstep, ?_, h'⟩
      rw [tableCount_concat]
      exact (h.layout.catalog.step hstep (by omega)).2.trans (by omega)
  exact ⟨impl, hrun, h⟩

/-- **Every run of `AddDoc`** that uses up neither table ids nor segments has a result, with one
live location for each document.

Live is a location that is found from the uid of its document, and back from the location to the
uid, and holds each of its fields. The proof is a refinement: the store is compared with what the
calls should have left, the documents of each table by their uids (`Refines`), and `AllLive` is read
off from that. -/
theorem run_allLive {ops : List Op} (hproper : Along step Proper opened ops)
    (htables : tableCount ops < 2 ^ 64) (hdocs : docCount ops < slotLimit) :
    ∃ impl, runSteps step opened ops = some impl ∧ AllLive ops impl := by
  obtain ⟨impl, hrun, h⟩ := Refines.run hproper htables hdocs
  exact ⟨impl, hrun, h.allLive⟩

/-- Two documents, one of them added again with another value. -/
def updateRun : List Op :=
  firstRun ++ [.addDoc pairs (pairDoc 2 7) true, .addDoc pairs (pairDoc 1 6) true]

theorem updateRun_allLive : ∃ impl, runSteps step opened updateRun = some impl ∧ AllLive updateRun impl :=
  run_allLive (by decide +kernel) (by decide) (by decide)

/-- When the table ids are used up, the first table gets a cursor at its beginning again, where its
document is. -/
theorem exists_run_not_allLive :
    ¬∀ ops, Along step Proper opened ops →
      ∃ impl, runSteps step opened ops = some impl ∧ AllLive ops impl := by
  intro hall
  have hfirst : Along step Proper opened firstRun := by decide +kernel
  obtain ⟨impl, hrun, h⟩ := Refines.run hfirst (by decide) (by decide)
  have hreads : ((runSteps step opened firstRun).map fun impl =>
      (impl.cache.tnamemap[pairs]?, impl.db.read (.uidIdMapping 0 (serialize 1)))) =
      some (some 0, some (addr 0 0)) := by
    decide +kernel
  rw [hrun, Option.map_some, Option.some_inj, Prod.mk.injEq] at hreads
  obtain ⟨hid, huid⟩ := hreads
  obtain ⟨schema, hschema⟩ := mem_iff_exists.mp
    ((h.layout.catalog.schemas pairs).mpr (mem_iff_exists.mpr ⟨0, hid⟩))
  have hnew : ∀ name : Bytes, name.length = 1 ∨ name.length = 8 →
      impl.db.read (.table name) = none := by
    have hkeys : (collections firstRun).keys = [pairs] := by decide +kernel
    intro name hlen
    rw [h.layout.catalog.read_table_eq_none, ← h.names, ← ExtTreeMap.mem_keys, hkeys,
      List.mem_singleton]
    rintro rfl
    exact absurd hlen (by decide)
  obtain ⟨ops, impl', hops, hrun', ht, hdocs⟩ :=
    exists_run_reuse pairSchema_fixed hid hschema (by decide) hnew
  have hproper : Along step Proper opened (firstRun ++ ops) := by
    refine hfirst.append fun s _ => Along.of_forall s fun op hop s' => ?_
    obtain ⟨name, rfl⟩ := hops op hop
    exact fun _ => by decide +kernel
  obtain ⟨impl'', hboth, hlive⟩ := hall _ hproper
  rw [runSteps_append, hrun, Option.bind_some, hrun'] at hboth
  cases hboth
  obtain ⟨docs, -, hlive⟩ := hlive pairs 0 schema 0 0 ht
  obtain ⟨s, o, haddr, hbelow, -⟩ := hlive.below _ _ ((hdocs _ rfl).trans huid)
  obtain ⟨rfl, rfl⟩ := addr_inj.mp haddr
  exact absurd hbelow (by decide)

end CxxLab.RocksdbLab
