import CxxLab.RocksdbLab.Runs
import CxxLab.RocksdbLab.Writes

/-!
# The index of the values

Every field value of a document is recorded twice, by place (`TFV`) and by value (`TFI`).
A document that moves to another segment takes both records with it. *One that stays where it is
does not*: the old value is overwritten, but the old index record is left behind. So the two
families agree as long as no value is overwritten by another one, and no longer — `index_run_iff`
has both directions.
-/

set_option autoImplicit false

namespace CxxLab.RocksdbLab

open Std CxxLab.Lib

/-- **The index is that of the values.** There is an index record of a value under a field and a
location exactly if the value that is stored at this location under this field is this one: no
record is missing, and no record is left of a value that has gone. -/
def IndexConsistent (S : Store) : Prop :=
  ∀ tid fid v s o,
    (S.read (.fieldIndex tid fid v s o)).isSome = true ↔ S.read (.fieldValue tid s o fid) = some v

/-- No value at a location differs from that of a document with these fields. -/
def SameValues (S : Store) (tid s o : UInt64) (m : ExtTreeMap UInt8 Bytes) : Prop :=
  ∀ (fid : UInt8) v w, m[fid]? = some v → S.read (.fieldValue tid s o fid) = some w → w = v

instance (S : Store) (tid s o : UInt64) (m : ExtTreeMap UInt8 Bytes) : Decidable (SameValues S tid s o m) :=
  decidable_of_iff (∀ kv ∈ m.toList, ∀ w ∈ S.read (.fieldValue tid s o kv.1), w = kv.2) <| by
    constructor
    · intro h fid v w hv hw
      exact h (fid, v) (ExtTreeMap.mem_toList_iff_getElem?_eq_some.mpr hv) w hw
    · rintro h ⟨fid, v⟩ hv w hw
      exact h fid v w (ExtTreeMap.mem_toList_iff_getElem?_eq_some.mp hv) hw

/-- **One document** keeps the index consistent exactly if it overwrites no value by another. -/
theorem indexConsistent_docWrites {S : Store} {tid sid offset : UInt64} {m : ExtTreeMap UInt8 Bytes}
    (hlocated : Located S tid) (hold : Replaceable S tid sid offset m) (h : IndexConsistent S) :
    IndexConsistent (S.apply (docWrites S tid sid offset m)) ↔
      SameValues S tid sid (placement S tid sid offset m[(0 : UInt8)]?).offsetUsed m := by
  have hne : ∀ s o, (placement S tid sid offset m[(0 : UInt8)]?).old = some (s, o) → s ≠ sid :=
    fun s o => placement_old_ne hlocated
  have hread := read_docWrites hlocated hold S
  generalize placement S tid sid offset m[(0 : UInt8)]? = p at *
  constructor
  · intro h' fid v w hv hw
    have hindex := (h tid fid w sid p.offsetUsed).mpr hw
    by_contra hdiff
    have hafter : (Store.read (S.apply (docWrites S tid sid offset m))
        (.fieldIndex tid fid w sid p.offsetUsed)).isSome = true := by
      have hnot : ¬p.old = some (sid, p.offsetUsed) := fun hsame => hne _ _ hsame rfl
      rw [hread]
      simpa [docEffect, fieldsEffect, hv, Ne.symm hdiff, hnot] using hindex
    have hvalue := (h' tid fid w sid p.offsetUsed).mp hafter
    rw [hread] at hvalue
    simp only [docEffect, fieldsEffect, hv, Option.isSome_some, and_self, if_true,
      Option.some_inj] at hvalue
    exact hdiff hvalue.symm
  · intro hsame t fid v s o
    rw [hread]
    have hbefore := h t fid v s o
    simp only [docEffect, fieldsEffect]
    rcases Option.eq_none_or_eq_some m[fid]? with hm | ⟨w, hm⟩
    · simpa [hm] using hbefore
    by_cases hnew : t = tid ∧ s = sid ∧ o = p.offsetUsed
    · -- The location written to: whatever was there is the same value.
      obtain ⟨rfl, rfl, rfl⟩ := hnew
      have hnot : ¬p.old = some (s, p.offsetUsed) := fun heq => hne _ _ heq rfl
      by_cases hvw : w = v
      · simp [hm, hvw]
      · have hnone : ¬S.read (.fieldValue t s p.offsetUsed fid) = some v :=
          fun hv => hvw (hsame fid w v hm hv).symm
        simpa [hm, hvw, hnot, hnone] using hbefore
    · by_cases hmove : t = tid ∧ p.old = some (s, o)
      · -- The location that is left: its index record is the one of its value.
        obtain ⟨rfl, hmove⟩ := hmove
        have hs := hne s o hmove
        have hvals : oldValues S t p fid = S.read (.fieldValue t s o fid) := by
          rw [oldValues, hmove]
          rfl
        by_cases hv : S.read (.fieldValue t s o fid) = some v
        · simp [hm, hs, hmove, hvals, hv]
        · simpa [hm, hs, hmove, hvals, hv] using hbefore
      · grind

/-! ## Runs -/

namespace RocksDBImpl

variable {impl impl' : RocksDBImpl}

/-- `AddDoc` finds the table, and where its next document goes. -/
structure Opens (impl : RocksDBImpl) (name : Bytes) (tid sid offset : UInt64) : Prop where
  schema : (impl.cache.getSchema name).isSome = true
  id : impl.cache.getTidByTname name = some tid
  segment : impl.cache.getSegId tid = some sid
  next : (impl.cache.getTidOffset tid).1 = offset

/-- What a batch does to the store. -/
theorem addBatch_db {name : Bytes} {docs : List Doc} {written : Bool} {status : Status}
    (h : impl.addBatch name docs written = some (status, impl')) :
    ((∀ tid sid offset, written = true → ¬Opens impl name tid sid offset) ∧ impl'.db = impl.db) ∨
    (written = true ∧ ∃ tid sid offset c, Opens impl name tid sid offset ∧
      docs.foldlM (addDocTo impl.db tid) ⟨[], sid, offset, false⟩ = some c ∧
      impl'.db = impl.db.apply c.wb) := by
  unfold addBatch at h
  cases hschema : impl.cache.getSchema name with
  | none =>
    rw [hschema] at h
    cases h
    exact .inl ⟨fun tid sid offset _ ho => by simpa [hschema] using ho.schema, rfl⟩
  | some schema =>
    cases htid : impl.cache.getTidByTname name with
    | none =>
      rw [hschema, htid] at h
      cases h
      exact .inl ⟨fun tid sid offset _ ho => by simpa [htid] using ho.id, rfl⟩
    | some tid =>
      cases hsid : impl.cache.getSegId tid with
      | none =>
        simp only [hschema, htid, hsid] at h
        cases h
        refine .inl ⟨fun tid' sid offset _ ho => ?_, rfl⟩
        cases htid.symm.trans ho.id
        simpa [hsid] using ho.segment
      | some sid =>
        simp only [hschema, htid, hsid] at h
        obtain ⟨c, hrun, hres⟩ := Option.bind_eq_some_iff.mp h
        cases written with
        | false =>
          cases hres
          exact .inl ⟨fun _ _ _ hw => (by cases hw), rfl⟩
        | true =>
          cases hres
          exact .inr ⟨rfl, tid, sid, _, c, ⟨by rw [hschema]; rfl, htid, hsid, rfl⟩, hrun, rfl⟩

/-- All uid records of all tables are addresses, in every state a call leads to. -/
theorem located_step {op : Op} (h : ∀ t, Located impl.db t) (hstep : step impl op = some impl') (t : UInt64) :
    Located impl'.db t := by
  have hbatch : ∀ {name docs written status}, impl.addBatch name docs written = some (status, impl') →
      Located impl'.db t := by
    intro name docs written status hadd
    rcases addBatch_db hadd with ⟨-, hdb⟩ | ⟨-, tid, sid, offset, c, -, hrun, hdb⟩
    · exact hdb ▸ h t
    · rw [hdb]
      refine foldlM_addDocTo_inv (I := fun T _ => Located T t) (h tid) ?_ hrun (h t)
      intro T c doc m hT _ hold
      exact hT.docWrites (h tid) hold
  cases op with
  | createTable name schema =>
    rw [step, createTable_eq, Option.some_inj] at hstep
    split at hstep
    · intro u a hread
      rw [← hstep, Catalog.read_created_ofDoc schema rfl] at hread
      exact h t u a hread
    · exact hstep ▸ h t
  | addDoc name doc written =>
    obtain ⟨⟨status, impl''⟩, hadd, rfl⟩ := Option.map_eq_some_iff.mp hstep
    unfold addDoc at hadd
    split at hadd
    · cases hadd
      exact h t
    · exact hbatch hadd
  | addDocs name docs written =>
    obtain ⟨⟨status, impl''⟩, hadd, rfl⟩ := Option.map_eq_some_iff.mp hstep
    exact hbatch hadd

theorem located_run {ops : List Op} (hrun : runSteps step opened ops = some impl) (t : UInt64) :
    Located impl.db t := by
  refine runSteps_inv (I := fun impl => ∀ t, Located impl.db t)
    (fun _ _ _ h hstep t => located_step h hstep t) (fun t u a hread => ?_) hrun t
  rw [opened_read, if_neg (by simp)] at hread
  cases hread

/-- **The condition on a call**: a document that is written finds no other values where it goes. -/
def KeepsValues (impl : RocksDBImpl) : Op → Prop
  | .addDoc name doc true => doc.fixed = true → ∀ tid sid offset m,
      Opens impl name tid sid offset → doc.serialize = some m →
      SameValues impl.db tid sid (placement impl.db tid sid offset m[(0 : UInt8)]?).offsetUsed m
  | _ => True

/-- What a call opens, and what its document is serialized to, is there once if at all. -/
theorem keepsValues_addDoc_iff {name : Bytes} {doc : Doc} : KeepsValues impl (.addDoc name doc true) ↔
    (doc.fixed = true → (impl.cache.getSchema name).isSome = true → ∀ tid ∈ impl.cache.getTidByTname name,
      ∀ sid ∈ impl.cache.getSegId tid, ∀ m ∈ doc.serialize, SameValues impl.db tid sid
        (placement impl.db tid sid (impl.cache.getTidOffset tid).1 m[(0 : UInt8)]?).offsetUsed m) := by
  constructor
  · intro h hfixed hschema tid htid sid hsid m hm
    exact h hfixed tid sid _ m ⟨hschema, htid, hsid, rfl⟩ hm
  · rintro h hfixed tid sid offset m ⟨hschema, htid, hsid, rfl⟩ hm
    exact h hfixed hschema tid htid sid hsid m hm

-- The two ids are looked up in their options: an instance found by itself tries every `UInt64`.
instance : ∀ (impl : RocksDBImpl) (op : Op), Decidable (KeepsValues impl op)
  | _, .addDoc _ _ true =>
    @decidable_of_iff' _ _ keepsValues_addDoc_iff <|
      @instDecidableForall _ _ inferInstance <| @instDecidableForall _ _ inferInstance <|
        @Option.decidableForallMem _ _ (fun _ => Option.decidableForallMem _) _
  | _, .addDoc _ _ false => .isTrue trivial
  | _, .createTable _ _ => .isTrue trivial
  | _, .addDocs _ _ _ => .isTrue trivial

/-- **One call** keeps the index consistent exactly if it meets the condition. -/
theorem indexConsistent_step_iff {op : Op} (hlocated : ∀ t, Located impl.db t)
    (h : IndexConsistent impl.db) (hop : op.single) (hstep : step impl op = some impl') :
    IndexConsistent impl'.db ↔ KeepsValues impl op := by
  cases op with
  | addDocs name docs written => cases hop
  | createTable name schema =>
    refine iff_of_true ?_ trivial
    rw [step, createTable_eq, Option.some_inj] at hstep
    split at hstep
    · intro tid fid v s o
      rw [← hstep, Catalog.read_created_ofDoc schema rfl, Catalog.read_created_ofDoc schema rfl]
      exact h tid fid v s o
    · exact hstep ▸ h
  | addDoc name doc written =>
    obtain ⟨⟨status, impl''⟩, hadd, rfl⟩ := Option.map_eq_some_iff.mp hstep
    unfold addDoc at hadd
    split at hadd
    · rename_i hrefused
      cases hadd
      refine iff_of_true h ?_
      cases written with
      | false => trivial
      | true =>
        intro hfixed
        rw [hfixed] at hrefused
        cases hrefused.2
    · rename_i hbuilt
      rcases addBatch_db hadd with ⟨hclosed, hdb⟩ | ⟨rfl, tid, sid, offset, c, hopen, hrun, hdb⟩
      · refine iff_of_true (hdb ▸ h) ?_
        cases written with
        | false => trivial
        | true => exact fun _ tid sid offset m hopen => absurd hopen (hclosed tid sid offset rfl)
      · obtain ⟨c', hdoc, hrest⟩ := Option.bind_eq_some_iff.mp hrun
        cases hrest
        obtain ⟨m, hm, hold, rfl⟩ := (addDocTo_eq_some (hlocated tid)).mp hdoc
        have hfixed : doc.fixed = true := by
          simpa [hopen.schema] using hbuilt
        rw [hdb, Cursor.afterDoc, List.nil_append, indexConsistent_docWrites (hlocated tid) hold h]
        constructor
        · intro hsame _ tid' sid' offset' m' hopen' hm'
          cases hopen.id.symm.trans hopen'.id
          cases hopen.segment.symm.trans hopen'.segment
          cases hopen.next.symm.trans hopen'.next
          cases hm.symm.trans hm'
          exact hsame
        · exact fun hkeeps => hkeeps hfixed tid sid offset m hopen hm

end RocksDBImpl

open RocksDBImpl

/-- **The index is consistent in every state of a run exactly if every call of it meets the
condition.**

A document that is added again to the segment it is in keeps its location. Its values are
overwritten there, and the index records of the old ones stay. So `KeepsValues` asks of a call that
no value at the location it writes to changes. One call is settled by `indexConsistent_step_iff`, in
both directions, and the run by induction over its calls. -/
theorem index_run_iff {ops : List Op} (hops : ∀ op ∈ ops, op.single) :
    (∀ pre impl, pre <+: ops → runSteps step opened pre = some impl → IndexConsistent impl.db) ↔
      ∀ pre op impl impl', pre ++ [op] <+: ops → runSteps step opened pre = some impl →
        step impl op = some impl' → KeepsValues impl op := by
  have hsingle : ∀ {pre op}, pre ++ [op] <+: ops → op.single := fun hpre =>
    hops _ (hpre.subset (List.mem_append_right _ List.mem_cons_self))
  have hrun : ∀ {pre : List Op} {op impl impl'}, runSteps step opened pre = some impl →
      step impl op = some impl' → runSteps step opened (pre ++ [op]) = some impl' := by
    intro pre op impl impl' hpre hstep
    rw [runSteps_append, hpre, Option.bind_some, runSteps, hstep]
    rfl
  constructor
  · intro h pre op impl impl' hpre hbefore hstep
    have hinit := h pre impl ((List.prefix_append _ _).trans hpre) hbefore
    rw [← indexConsistent_step_iff (located_run hbefore) hinit (hsingle hpre) hstep]
    exact h _ impl' hpre (hrun hbefore hstep)
  · intro hkeeps pre
    induction pre using List.reverseRecOn with
    | nil =>
      intro impl _ hstart
      cases hstart
      intro tid fid v s o
      rw [opened_read, opened_read]
      simp
    | append_singleton pre op ih =>
      intro impl' hpre hboth
      rw [runSteps_append] at hboth
      obtain ⟨impl, hbefore, hone⟩ := Option.bind_eq_some_iff.mp hboth
      obtain ⟨impl'', hstep, hend⟩ := Option.bind_eq_some_iff.mp hone
      cases hend
      have hinit := ih impl ((List.prefix_append _ _).trans hpre) hbefore
      rw [indexConsistent_step_iff (located_run hbefore) hinit (hsingle hpre) hstep]
      exact hkeeps pre op impl impl' hpre hbefore hstep

/-- **A run whose calls all meet the condition** ends with a consistent index. -/
theorem indexConsistent_run {ops : List Op} {impl : RocksDBImpl} (hops : ∀ op ∈ ops, op.single)
    (hkeeps : Along step KeepsValues opened ops) (hrun : runSteps step opened ops = some impl) :
    IndexConsistent impl.db := by
  refine ((hkeeps.and (Along.of_forall opened fun op hop _ => hops op hop)).runSteps_inv
    (I := fun impl => (∀ t, Located impl.db t) ∧ IndexConsistent impl.db)
    (fun impl op impl' h hboth hstep => ?_) ⟨located_run (show runSteps step opened [] = some opened from rfl), fun tid fid v s o => ?_⟩ hrun).2
  · exact ⟨located_step h.1 hstep, (indexConsistent_step_iff h.1 h.2 hboth.2 hstep).mpr hboth.1⟩
  · rw [opened_read, opened_read]
    simp

/-- A document is added again as it is, after another one. -/
def readdRun : List Op :=
  firstRun ++ [.addDoc pairs (pairDoc 2 7) true, .addDoc pairs (pairDoc 1 5) true]

/-- The value is there already, and the index is that of the values again. -/
theorem readdRun_index :
    ∃ impl, runSteps step opened readdRun = some impl ∧ IndexConsistent impl.db := by
  have hsome : (runSteps step opened readdRun).isSome = true := by decide +kernel
  have hkeeps : Along step KeepsValues opened readdRun := by decide +kernel
  obtain ⟨impl, hrun⟩ := Option.isSome_iff_exists.mp hsome
  refine ⟨impl, hrun, (index_run_iff (by simp [readdRun, firstRun, Op.single])).mpr
    (fun pre op impl impl' hpre hrun _ => ?_) readdRun impl (List.prefix_refl _) hrun⟩
  exact (hkeeps.initial hpre).last hrun

/-- The document is added again with another value, in the same segment: the index record of the
first value stays. -/
theorem updateRun_index :
    ¬∀ ops impl, Along step Proper opened ops → runSteps step opened ops = some impl →
      IndexConsistent impl.db := by
  intro h
  have hproper : Along step Proper opened (firstRun ++ [.addDoc pairs (pairDoc 1 6) true]) := by
    decide +kernel
  have hreads : ((runSteps step opened (firstRun ++ [.addDoc pairs (pairDoc 1 6) true])).map fun impl =>
      (impl.db.read (.fieldIndex 0 1 (serialize 5) 0 0), impl.db.read (.fieldValue 0 0 0 1))) =
      some (some [], some (serialize 6)) := by
    decide +kernel
  obtain ⟨impl, hrun, hread⟩ := Option.map_eq_some_iff.mp hreads
  obtain ⟨hindex, hvalue⟩ := Prod.mk.injEq .. ▸ hread
  have := (h _ impl hproper hrun 0 1 (serialize 5) 0 0).mp (by rw [hindex]; rfl)
  rw [hvalue, Option.some_inj, serialize_inj] at this
  exact absurd this (by decide)

end CxxLab.RocksdbLab
