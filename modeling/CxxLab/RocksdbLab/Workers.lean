import CxxLab.RocksdbLab.Batch

/-!
# Two workers

A `RequestExector` hands its requests to worker threads in turn, and nothing keeps two of them from
running `AddDocs` for the same table at the same time. The cache has locks, but a worker takes them
for one access after another: it reads the segment, it reads the offset, it makes its batch, writes
it, and then sets the segment and the offset. What another worker has done in between is lost.

`Executor.step` is one of these accesses by one of two workers, and a run is any interleaving of
them. Where a worker reads the offset only while the other one is not between reading and setting
it, and the segment it has read is still the current one, every document is kept
(`workers_keep_all`). Two workers that read the offset one after the other put their documents in
the same place (`workers_share_location`).
-/

set_option autoImplicit false

namespace CxxLab.RocksdbLab

open Std CxxLab.Lib RocksDBImpl

/-! ## Nothing is above the cursor -/

/-- The values of a table are below its cursor. -/
def Vacant (S : Store) (tid sid offset : UInt64) : Prop :=
  ∀ s o f v, S.read (.fieldValue tid s o f) = some v → o < segmentSize ∧
    slot (s, o) < slot (sid, offset)

section Vacant

variable {S : Store} {tid sid₀ off₀ : UInt64}

/-- **A document of a batch.** -/
theorem Vacant.add {x : Tip} {k : Nat} {m : Fields} (h : Vacant x.store tid x.sid x.offset)
    (hx : Within S tid sid₀ off₀ x (k + 1)) (hold : Replaceable S tid x.sid x.offset m) :
    Vacant (x.add S tid m).store tid (x.add S tid m).sid (x.add S tid m).offset := by
  intro s o f v hv
  have hslot := hx.slot_add (m := m) S
  have hlocated := hx.start.located
  rw [Tip.add, read_docWrites_value hlocated hold] at hv
  show o < segmentSize ∧ slot (s, o) < (x.add S tid m).slot
  split at hv
  · next hto =>
    obtain ⟨-, rfl, rfl⟩ := hto
    have hcursor := hx.ahead.placed.offset_lt
    rcases placement_cases x.sid x.offset m[(0 : UInt8)]? hlocated with
      ⟨-, hp⟩ | ⟨o', hin, hp⟩ | ⟨s', o', -, -, hp⟩
    · rw [Tip.place, hp, if_pos rfl] at hslot
      rw [hp, hslot]
      exact ⟨hcursor, Nat.lt_succ_self _⟩
    · obtain ⟨u, -, hu⟩ := Option.bind_eq_some_iff.mp hin
      rw [hp, hslot]
      obtain ⟨ho, hlt⟩ := hx.start.lt hu
      exact ⟨ho, Nat.lt_add_right _ hlt⟩
    · rw [Tip.place, hp, if_pos rfl] at hslot
      rw [hp, hslot]
      exact ⟨hcursor, Nat.lt_succ_self _⟩
  · split at hv
    · cases hv
    · obtain ⟨ho, hlt⟩ := h s o f v hv
      rw [hslot]
      exact ⟨ho, Nat.lt_add_right _ hlt⟩

end Vacant

/-- The documents of a batch can be serialized. -/
theorem exists_serialized {S : Store} {tid : UInt64} (hlocated : Located S tid) :
    ∀ {docs : List Doc} {c c' : Cursor}, docs.foldlM (addDocTo S tid) c = some c' →
      ∃ ms, Serialized docs ms := by
  intro docs
  induction docs with
  | nil => exact fun _ => ⟨[], .nil⟩
  | cons doc docs ih =>
    intro c c' hrun
    rw [List.foldlM_cons] at hrun
    obtain ⟨c₁, hdoc, hrest⟩ := Option.bind_eq_some_iff.mp hrun
    obtain ⟨m, hm, -, -⟩ := (addDocTo_eq_some hlocated).mp hdoc
    obtain ⟨ms, hms⟩ := ih hrest
    exact ⟨m :: ms, .cons hm hms⟩

/-- The values of all tables are below their cursors. -/
structure AllVacant (impl : RocksDBImpl) : Prop where
  vacant : ∀ tid sid offset, impl.cache.segmap[tid]? = some sid →
    impl.cache.offset[tid]? = some offset → Vacant impl.db tid sid offset
  fresh : ∀ tid, ¬tid < impl.cache.tid → ∀ s o f, impl.db.read (.fieldValue tid s o f) = none

namespace AllVacant

variable {impl impl' : RocksDBImpl} {n : Nat}

theorem opened : AllVacant opened := by
  refine ⟨fun tid sid offset hs => (by cases hs), fun tid _ s o f => ?_⟩
  rw [opened_read, if_neg (by simp)]

theorem created (h : AllVacant impl) {name : Bytes} {schema : DocSchema}
    (hroom : impl.cache.tid.toNat + 1 < 2 ^ 64) : AllVacant (impl.created name schema) := by
  have hread : ∀ tid s o f, (impl.created name schema).db.read (.fieldValue tid s o f) =
      impl.db.read (.fieldValue tid s o f) := fun _ _ _ _ => Catalog.read_created_ofDoc schema rfl
  refine ⟨fun tid sid offset hs ho s o f v hv => ?_, fun tid htid s o f => ?_⟩
  · rw [hread] at hv
    simp only [RocksDBImpl.created, getElem?_insert_eq] at hs ho
    by_cases heq : tid = impl.cache.tid
    · rw [h.fresh tid (heq ▸ UInt64.lt_irrefl _)] at hv
      cases hv
    · rw [if_neg heq] at hs ho
      exact h.vacant tid sid offset hs ho s o f v hv
  · rw [hread]
    exact h.fresh tid (fun hlt => htid ((Catalog.lt_add_one hroom).mpr (.inr hlt))) s o f

theorem commit (h : AllVacant impl) (hlayout : Layout impl n) {name : Bytes}
    {tid sid offset : UInt64} {schema : DocSchema} {docs : List Doc} {c : Cursor}
    (ht : Table impl name tid schema sid offset)
    (hrun : docs.foldlM (addDocTo impl.db tid) ⟨[], sid, offset, false⟩ = some c)
    (hroom : n + docs.length < slotLimit) : AllVacant (impl.commit tid c) := by
  have hplaced := hlayout.table ht
  have hother : ∀ t, t ≠ tid → ∀ s o f, (impl.commit tid c).db.read (.fieldValue t s o f) =
      impl.db.read (.fieldValue t s o f) := fun t hne s o f =>
    foldlM_addDocTo_frame hplaced.located hrun rfl hne
  refine ⟨fun t s' o' hs ho => ?_, fun t hnot s o f => ?_⟩
  · simp only [RocksDBImpl.commit, getElem?_insert_eq] at hs ho
    by_cases heq : t = tid
    · rw [if_pos heq] at hs ho
      cases hs
      cases ho
      subst heq
      obtain ⟨ms, hms⟩ := exists_serialized hplaced.located hrun
      have hstart : Within impl.db t sid offset ⟨impl.db, sid, offset⟩ (ms.length + 0) := by
        refine ⟨Ahead.refl hplaced, ?_⟩
        have hle := hlayout.slot_le ht
        rw [← hms.length_eq]
        show slot (sid, offset) + docs.length < slotLimit
        omega
      exact (Adds.inv (W := Within impl.db t sid offset)
        (I := fun x => Vacant x.store t x.sid x.offset) (fun _ _ _ => Within.batch)
        (fun x m k _ hx hold hv => hv.add hx hold) (adds_of_batch hplaced.located hms hrun) hstart
        (h.vacant t sid offset ht.segment ht.offset)).2
    · rw [if_neg heq] at hs ho
      intro s o f v hv
      rw [hother t heq] at hv
      exact h.vacant t s' o' hs ho s o f v hv
  · have hne : t ≠ tid := by
      rintro rfl
      exact hnot (hlayout.catalog.name_lt ht.id)
    rw [hother t hne]
    exact h.fresh t hnot s o f

theorem step (h : AllVacant impl) (hlayout : Layout impl n) {op : Op}
    (hstep : RocksDBImpl.step impl op = some impl')
    (htables : impl.cache.tid.toNat + op.tables < 2 ^ 64) (hdocs : n + op.docs < slotLimit) :
    AllVacant impl' := by
  rcases step_cases hlayout.catalog.registry hstep with rfl | ⟨name, schema, rfl, -, -, rfl⟩ |
    ⟨name, docs, tid, schema, sid, offset, c, hbatch, ht, hrun, rfl⟩
  · exact h
  · exact h.created htables
  · rw [← Op.length_batch hbatch] at hdocs
    exact h.commit hlayout ht hrun hdocs

/-- **Every run** that uses up neither table ids nor segments. -/
theorem run {ops : List Op} (hrun : runSteps RocksDBImpl.step RocksDBImpl.opened ops = some impl)
    (htables : tableCount ops < 2 ^ 64) (hdocs : docCount ops < slotLimit) : AllVacant impl :=
  (Layout.run_history (I := fun _ => AllVacant) opened hrun htables hdocs
    fun _ _ _ _ hlayout h hstep htables hdocs => h.step hlayout hstep htables hdocs).2

end AllVacant

/-! ## Documents that are kept -/

/-- A document is stored where its uid says, and nothing else is there. -/
def Kept (S : Store) (tid : UInt64) (m : Fields) : Prop :=
  ∃ uid s o, m[(0 : UInt8)]? = some uid ∧ S.read (.uidIdMapping tid uid) = some (addr s o) ∧
    ∀ fid, S.read (.fieldValue tid s o fid) = m[fid]?

/-- **Every document is kept, and no two uids share a location.**

Kept is a document that is found from its uid, with all its fields and no others at the location
that is found. The second part is about all uids of the table, those that were there before too. -/
structure KeptAll (S : Store) (tid : UInt64) (ms : List Fields) : Prop where
  kept : ∀ m ∈ ms, Kept S tid m
  distinct : ∀ uid uid' a, S.read (.uidIdMapping tid uid) = some a →
    S.read (.uidIdMapping tid uid') = some a → uid = uid'

/-- The uid of a document is not in a store. -/
def NewIn (S : Store) (tid : UInt64) (m : Fields) : Prop :=
  ∃ uid, m[(0 : UInt8)]? = some uid ∧ S.read (.uidIdMapping tid uid) = none

section New

variable {S : Store} {tid sid₀ off₀ : UInt64}

theorem NewIn.placement {m : Fields} (h : NewIn S tid m) (sid offset : UInt64) :
    RocksdbLab.placement S tid sid offset m[(0 : UInt8)]? = ⟨offset, true, none⟩ := by
  obtain ⟨uid, huid, hread⟩ := h
  refine placement_new ?_
  rw [huid]
  exact hread

theorem NewIn.replaceable {m : Fields} (h : NewIn S tid m) (sid offset : UInt64) :
    Replaceable S tid sid offset m := by
  intro fid _ s o hold
  rw [h.placement] at hold
  cases hold

/-- **A new document** is put at the cursor, and those that are kept are kept. -/
theorem NewIn.add {x : Tip} {k : Nat} {m : Fields} (h : NewIn S tid m)
    (hx : Within S tid sid₀ off₀ x (k + 1)) (hvacant : Vacant x.store tid x.sid x.offset) :
    Kept (x.add S tid m).store tid m ∧ ∀ m', Kept x.store tid m' →
      m'[(0 : UInt8)]? ≠ m[(0 : UInt8)]? → Kept (x.add S tid m).store tid m' := by
  have hlocated := hx.start.located
  have hreadUid := read_docWrites_uid hlocated (h.replaceable x.sid x.offset) x.store
  have hreadValue := read_docWrites_value hlocated (h.replaceable x.sid x.offset) x.store
  rw [h.placement] at hreadUid hreadValue
  constructor
  · obtain ⟨uid, huid, -⟩ := h
    refine ⟨uid, x.sid, x.offset, huid, ?_, fun fid => ?_⟩
    · rw [Tip.add, hreadUid, if_pos huid]
    · rw [Tip.add, hreadValue]
      by_cases hf : fid ∈ m
      · rw [if_pos ⟨hf, rfl, rfl⟩]
      · rw [if_neg (fun hc => hf hc.1), if_neg (fun hc => hf hc.1), ExtTreeMap.getElem?_eq_none hf]
        -- Nothing is at the cursor.
        by_contra hne
        obtain ⟨v, hv⟩ := Option.ne_none_iff_exists'.mp hne
        exact absurd (hvacant _ _ _ _ hv).2 (Nat.lt_irrefl _)
  · rintro m' ⟨uid', s, o, huid', hread, hvalues⟩ hne
    have hlt := (hx.ahead.placed.lt hread).2
    refine ⟨uid', s, o, huid', ?_, fun fid => ?_⟩
    · rw [Tip.add, hreadUid, if_neg (fun heq => hne (huid'.trans heq.symm)), hread]
    · rw [Tip.add, hreadValue, if_neg, if_neg (fun hc => by cases hc.2), hvalues]
      rintro ⟨-, rfl, rfl⟩
      exact absurd hlt (Nat.lt_irrefl _)

/-- **A batch of new documents** keeps them, and those that are kept. -/
theorem Adds.kept : ∀ {ms : List Fields} {x y : Tip} {k : Nat}, Adds (fun _ => S) tid x ms y →
    Within S tid sid₀ off₀ x (ms.length + k) → Vacant x.store tid x.sid x.offset →
    (∀ m ∈ ms, NewIn S tid m) → (ms.map fun m => m[(0 : UInt8)]?).Nodup →
    (∀ m ∈ ms, Kept y.store tid m) ∧ ∀ m', Kept x.store tid m' →
      m'[(0 : UInt8)]? ∉ ms.map (fun m => m[(0 : UInt8)]?) → Kept y.store tid m' := by
  intro ms
  induction ms with
  | nil =>
    intro x y k hrun _ _ _ _
    cases hrun
    exact ⟨by simp, fun m' hm' _ => hm'⟩
  | cons m ms ih =>
    intro x y k hrun hx hvacant hnew hnodup
    obtain ⟨hold, hrest⟩ := hrun
    rw [List.length_cons, Nat.add_right_comm] at hx
    rw [List.map_cons, List.nodup_cons] at hnodup
    obtain ⟨hfirst, hothers⟩ := (hnew m List.mem_cons_self).add hx hvacant
    obtain ⟨hlater, hkeep⟩ := ih hrest (hx.batch hold) (hvacant.add hx hold)
      (fun e he => hnew e (List.mem_cons_of_mem _ he)) hnodup.2
    refine ⟨fun e he => ?_, fun m' hm' hnot => ?_⟩
    · rcases List.mem_cons.mp he with rfl | he
      · exact hkeep e hfirst hnodup.1
      · exact hlater e he
    · rw [List.map_cons, List.mem_cons, not_or] at hnot
      exact hkeep m' (hothers m' hm' hnot.1) hnot.2

end New

/-! ## The executor -/

/-- Where a worker is in `AddDocs`, and its variables. -/
inductive Phase where
  | waiting
  | found (tid : UInt64)
  | segment (tid sid : UInt64)
  | adding (tid : UInt64) (docs : List Doc) (c : Cursor)
  | written (tid : UInt64) (c : Cursor)
  | moved (tid : UInt64) (c : Cursor)
  | done (status : Status)

def Phase.isDone : Phase → Bool
  | .done _ => true
  | _ => false

/-- **One access of a worker to the cache or the store.** The looking up of table and schema is one:
no request changes these. Writes succeed. -/
def work (tableName : Bytes) (docs : List Doc) (impl : RocksDBImpl) :
    Phase → Option (RocksDBImpl × Phase)
  | .waiting =>
    match impl.cache.getSchema tableName, impl.cache.getTidByTname tableName with
    | some _, some tid => some (impl, .found tid)
    | _, _ => some (impl, .done .notFound)
  | .found tid =>
    match impl.cache.getSegId tid with
    | none => some (impl, .done .notFound)
    | some sid => some (impl, .segment tid sid)
  | .segment tid sid =>
    let (offset, cache) := impl.cache.getTidOffset tid
    some ({ impl with cache := cache }, .adding tid docs ⟨[], sid, offset, false⟩)
  | .adding tid (doc :: docs) c =>
    (addDocTo impl.db tid c doc).map fun c => (impl, .adding tid docs c)
  | .adding tid [] c => some ({ impl with db := impl.db.apply c.wb }, .written tid c)
  | .written tid c =>
    some (if c.hasUpdate then { impl with cache := impl.cache.updateSegMap tid c.sid } else impl,
      .moved tid c)
  | .moved tid c => some ({ impl with cache := impl.cache.updateTidOffset tid c.offset }, .done .ok)
  | .done status => some (impl, .done status)

/-- Two workers, each with its request. -/
structure Executor where
  impl : RocksDBImpl
  phase : Bool → Phase

namespace Executor

/-- What a worker has done. -/
def put (e : Executor) (w : Bool) (impl : RocksDBImpl) (p : Phase) : Executor :=
  ⟨impl, Function.update e.phase w p⟩

def step (tableName : Bytes) (docs : Bool → List Doc) (e : Executor) (w : Bool) : Option Executor :=
  (work tableName (docs w) e.impl (e.phase w)).map fun r => e.put w r.1 r.2

/-- Both requests are in their queues. -/
def start (impl : RocksDBImpl) : Executor := ⟨impl, fun _ => .waiting⟩

/-- Both requests have been executed. -/
def Finished (e : Executor) : Prop := ∀ w, (e.phase w).isDone = true

instance (e : Executor) : Decidable e.Finished :=
  inferInstanceAs (Decidable (∀ w, (e.phase w).isDone = true))

variable (e : Executor) (w : Bool) (impl : RocksDBImpl) (p : Phase)

@[simp] theorem impl_put : (e.put w impl p).impl = impl := rfl

@[simp] theorem phase_put_self : (e.put w impl p).phase w = p := Function.update_self ..

@[simp] theorem phase_put_not : (e.put w impl p).phase (!w) = e.phase (!w) :=
  Function.update_of_ne (by simp) ..

theorem phase_put_of_ne {v : Bool} (h : v ≠ w) : (e.put w impl p).phase v = e.phase v :=
  Function.update_of_ne h ..

end Executor

/-- Between reading the offset and setting it. -/
def Phase.inside : Phase → Bool
  | .adding _ _ _ | .written _ _ | .moved _ _ => true
  | _ => false

/-- **A worker that reads the offset** does so while the other one is not inside, and the segment it
has read is still that of the table. -/
def AloneAt (impl : RocksDBImpl) (other : Phase) : Phase → Prop
  | .segment tid sid => other.inside = false ∧ impl.cache.getSegId tid = some sid
  | _ => True

instance (impl : RocksDBImpl) (other : Phase) : ∀ p : Phase, Decidable (AloneAt impl other p)
  | .segment tid sid =>
    inferInstanceAs (Decidable (other.inside = false ∧ impl.cache.getSegId tid = some sid))
  | .waiting | .found _ | .adding _ _ _ | .written _ _ | .moved _ _ | .done _ => .isTrue trivial

def Alone (e : Executor) (w : Bool) : Prop := AloneAt e.impl (e.phase (!w)) (e.phase w)

instance (e : Executor) (w : Bool) : Decidable (Alone e w) :=
  inferInstanceAs (Decidable (AloneAt e.impl (e.phase (!w)) (e.phase w)))

/-! ## One after the other -/

section Serial

variable (name : Bytes) (tid : UInt64) (schema : DocSchema) (docs : Bool → List Doc)
  (ms : Bool → List Fields)

/-- The documents of the requests that have not been executed. -/
def remaining (fin : Bool → Bool) : Nat :=
  (if fin false then 0 else (docs false).length) + if fin true then 0 else (docs true).length

/-- **Some requests have been executed**, and no other has begun. -/
structure Settled (fin : Bool → Bool) (impl : RocksDBImpl) (n : Nat) (sid offset : UInt64) : Prop where
  layout : Layout impl n
  vacant : AllVacant impl
  table : Table impl name tid schema sid offset
  room : n + remaining docs fin < slotLimit
  kept : ∀ w, fin w = true → ∀ m ∈ ms w, Kept impl.db tid m
  fresh : ∀ w, fin w = false → ∀ m ∈ ms w, NewIn impl.db tid m

/-- A worker that is not inside, where its request has been executed or not. The segment it has read
may be an old one. -/
inductive Outside : Bool → Phase → Prop where
  | waiting : Outside false .waiting
  | found : Outside false (.found tid)
  | segment (sid : UInt64) : Outside false (.segment tid sid)
  | done : Outside true (.done .ok)

/-- A worker that is inside: what it has made of `base`, where it read the cursor. -/
inductive Inside (base : RocksDBImpl) (sid offset : UInt64) (docs : List Doc) :
    RocksDBImpl → Phase → Prop where
  | adding {front rest : List Doc} {c : Cursor} (hdocs : docs = front ++ rest)
      (hrun : front.foldlM (addDocTo base.db tid) ⟨[], sid, offset, false⟩ = some c) :
      Inside base sid offset docs base (.adding tid rest c)
  | written {c : Cursor}
      (hrun : docs.foldlM (addDocTo base.db tid) ⟨[], sid, offset, false⟩ = some c) :
      Inside base sid offset docs { base with db := base.db.apply c.wb } (.written tid c)
  | moved {c : Cursor}
      (hrun : docs.foldlM (addDocTo base.db tid) ⟨[], sid, offset, false⟩ = some c) :
      Inside base sid offset docs
        ⟨base.db.apply c.wb, { base.cache with segmap := base.cache.segmap.insert tid c.sid }⟩
        (.moved tid c)

/-- **At most one worker is inside.** -/
inductive Serial (e : Executor) : Prop where
  | quiet {fin : Bool → Bool} {n : Nat} {sid offset : UInt64}
      (hsettled : Settled name tid schema docs ms fin e.impl n sid offset)
      (hout : ∀ w, Outside tid (fin w) (e.phase w)) : Serial e
  | busy {base : RocksDBImpl} {fin : Bool → Bool} {n : Nat} {sid offset : UInt64} (w : Bool)
      (hsettled : Settled name tid schema docs ms fin base n sid offset) (hfin : fin w = false)
      (hout : Outside tid (fin (!w)) (e.phase (!w)))
      (hin : Inside tid base sid offset (docs w) e.impl (e.phase w)) : Serial e

end Serial

section Steps

variable {name : Bytes} {tid : UInt64} {schema : DocSchema} {docs : Bool → List Doc}
  {ms : Bool → List Fields} {fin : Bool → Bool} {impl base : RocksDBImpl} {n : Nat}
  {sid offset : UInt64} {w : Bool} {e : Executor}

/-- A document of a request has its fields. -/
theorem exists_fields {docs : List Doc} {ms : List Fields} (h : Serialized docs ms) {d : Doc}
    (hd : d ∈ docs) : ∃ m ∈ ms, d.serialize = some m := by
  induction h with
  | nil => cases hd
  | @cons d' m docs ms hm _ ih =>
    rcases List.mem_cons.mp hd with rfl | hd
    · exact ⟨m, List.mem_cons_self, hm⟩
    · obtain ⟨m', hm', hser⟩ := ih hd
      exact ⟨m', List.mem_cons_of_mem _ hm', hser⟩

theorem remaining_update (hfin : fin w = false) :
    remaining docs fin = (docs w).length + remaining docs (Function.update fin w true) := by
  cases w <;> simp [remaining, hfin]
  omega

/-- The uids of the two requests are different. -/
def DistinctUids (ms : Bool → List Fields) : Prop :=
  ∀ w, ((ms w).map fun m => m[(0 : UInt8)]?).Nodup ∧ ∀ m ∈ ms (!w),
    m[(0 : UInt8)]? ∉ (ms w).map fun m => m[(0 : UInt8)]?

/-- **A request has been executed.** -/
theorem Settled.commit (h : Settled name tid schema docs ms fin base n sid offset)
    (hms : Serialized (docs w) (ms w)) (hdistinct : DistinctUids ms) (hfin : fin w = false)
    {c : Cursor} (hrun : (docs w).foldlM (addDocTo base.db tid) ⟨[], sid, offset, false⟩ = some c) :
    Settled name tid schema docs ms (Function.update fin w true) (base.commit tid c)
      (n + (docs w).length) c.sid c.offset := by
  have hroom := h.room
  rw [remaining_update hfin] at hroom
  have hplaced := h.layout.table h.table
  have hbatch := adds_of_batch hplaced.located hms hrun
  have hstart : Within base.db tid sid offset ⟨base.db, sid, offset⟩ ((ms w).length + 0) := by
    refine ⟨Ahead.refl hplaced, ?_⟩
    have hle := h.layout.slot_le h.table
    rw [← hms.length_eq]
    show slot (sid, offset) + (docs w).length < slotLimit
    omega
  obtain ⟨hown, hkeep⟩ := hbatch.kept hstart
    (h.vacant.vacant tid sid offset h.table.segment h.table.offset) (h.fresh w hfin) (hdistinct w).1
  have hother : ∀ v, v ≠ w → ∀ m ∈ ms v, m[(0 : UInt8)]? ∉ (ms w).map fun m => m[(0 : UInt8)]? := by
    intro v hv m hm
    rw [Bool.eq_not_of_ne hv] at hm
    exact (hdistinct w).2 m hm
  refine ⟨h.layout.commit h.table hrun (by omega), h.vacant.commit h.layout h.table hrun (by omega),
    table_atTip h.table ⟨base.db.apply c.wb, c.sid, c.offset⟩, by omega, fun v hv m hm => ?_,
    fun v hv m hm => ?_⟩
  · by_cases heq : v = w
    · subst heq
      exact hown m hm
    · rw [Function.update_of_ne heq] at hv
      exact hkeep m (h.kept v hv m hm) (hother v heq m hm)
  · have heq : v ≠ w := by
      rintro rfl
      simp at hv
    rw [Function.update_of_ne heq] at hv
    obtain ⟨uid, huid, hread⟩ := h.fresh v hv m hm
    refine ⟨uid, huid, ((hbatch.batch_of_ne hstart fun d hd hsame => ?_).1).trans hread⟩
    exact hother v heq m hm (List.mem_map.mpr ⟨d, hd, hsame.trans huid.symm⟩)

/-- A worker that is inside has left the table where it is. -/
theorem Inside.cache_eq {docs : List Doc} {p : Phase} (h : Inside tid base sid offset docs impl p)
    (name : Bytes) : impl.cache.getSchema name = base.cache.getSchema name ∧
      impl.cache.getTidByTname name = base.cache.getTidByTname name := by
  cases h <;> exact ⟨rfl, rfl⟩

theorem Inside.getSegId {docs : List Doc} {p : Phase} (h : Inside tid base sid offset docs impl p)
    (hseg : base.cache.getSegId tid = some sid) : ∃ s, impl.cache.getSegId tid = some s := by
  cases h with
  | adding _ _ => exact ⟨sid, hseg⟩
  | written _ => exact ⟨sid, hseg⟩
  | @moved c _ => exact ⟨c.sid, by rw [DBCache.getSegId, getElem?_insert_eq, if_pos rfl]⟩

theorem Inside.inside {docs : List Doc} {p : Phase} (h : Inside tid base sid offset docs impl p) :
    p.inside = true := by
  cases h <;> rfl

/-- **One access of the worker that is inside**: it goes on, or has executed its request. -/
theorem Inside.work (hsettled : Settled name tid schema docs ms fin base n sid offset)
    (hms : Serialized (docs w) (ms w)) (hfin : fin w = false) {p : Phase}
    (h : Inside tid base sid offset (docs w) impl p) :
    ∃ impl' p', RocksdbLab.work name (docs w) impl p = some (impl', p') ∧
      (Inside tid base sid offset (docs w) impl' p' ∨ (p' = .done .ok ∧ ∃ c,
        (docs w).foldlM (addDocTo base.db tid) ⟨[], sid, offset, false⟩ = some c ∧
        impl' = base.commit tid c)) := by
  have ht := hsettled.table
  have hlocated := (hsettled.layout.table ht).located
  cases h with
  | @adding front rest c hdocs hrun =>
    cases rest with
    | nil =>
      rw [List.append_nil] at hdocs
      exact ⟨_, _, rfl, .inl (.written (hdocs ▸ hrun))⟩
    | cons d rest =>
      obtain ⟨m, hm, hser⟩ := exists_fields hms (show d ∈ docs w by simp [hdocs])
      have hone : addDocTo impl.db tid c d = some (c.afterDoc impl.db tid m) :=
        (addDocTo_eq_some hlocated).mpr
          ⟨m, hser, (hsettled.fresh w hfin m hm).replaceable _ _, rfl⟩
      refine ⟨impl, .adding tid rest (c.afterDoc impl.db tid m), ?_, .inl ?_⟩
      · rw [RocksdbLab.work, hone]
        rfl
      · refine .adding (hdocs.trans (List.append_cons front d rest)) ?_
        rw [List.foldlM_append, hrun, Option.bind_eq_bind, Option.bind_some, List.foldlM_cons, hone]
        rfl
  | @written c hrun =>
    refine ⟨_, _, rfl, .inl ?_⟩
    have hstays := ((hsettled.layout.catalog.registry.sound ht).addDocs hrun).stays
    have hseg : (if c.hasUpdate = true then
          { db := base.db.apply c.wb, cache := base.cache.updateSegMap tid c.sid : RocksDBImpl }
        else { base with db := base.db.apply c.wb }) =
        ⟨base.db.apply c.wb, { base.cache with segmap := base.cache.segmap.insert tid c.sid }⟩ := by
      split
      · rfl
      · next hno =>
        rw [hstays (by simpa using hno), insert_eq_self ht.segment]
    rw [show (if c.hasUpdate = true then _ else _) = _ from hseg]
    exact .moved hrun
  | @moved c hrun => exact ⟨_, _, rfl, .inr ⟨rfl, c, hrun, rfl⟩⟩

/-- A step while no worker is inside. -/
theorem Settled.step (hsettled : Settled name tid schema docs ms fin e.impl n sid offset)
    (hout : ∀ w, Outside tid (fin w) (e.phase w)) (halone : Alone e w) :
    ∃ e', e.step name docs w = some e' ∧ Serial name tid schema docs ms e' := by
  have ht := hsettled.table
  have hquiet : ∀ {p : Phase}, Outside tid (fin w) p →
      Serial name tid schema docs ms (e.put w e.impl p) := by
    intro p hp
    refine .quiet hsettled fun v => ?_
    by_cases heq : v = w
    · subst heq
      rwa [Executor.phase_put_self]
    · rw [Executor.phase_put_of_ne e w e.impl p heq]
      exact hout v
  have hphase := hout w
  generalize hp : e.phase w = p at hphase
  generalize hf : fin w = b at hphase hquiet
  cases hphase with
  | waiting =>
    refine ⟨e.put w e.impl (.found tid), ?_, hquiet .found⟩
    rw [Executor.step, hp, RocksdbLab.work, show e.impl.cache.getSchema name = _ from ht.schema,
      show e.impl.cache.getTidByTname name = _ from ht.id]
    rfl
  | found =>
    refine ⟨e.put w e.impl (.segment tid sid), ?_, hquiet (.segment sid)⟩
    rw [Executor.step, hp, RocksdbLab.work, show e.impl.cache.getSegId tid = _ from ht.segment]
    rfl
  | segment sid' =>
    rw [Alone, hp] at halone
    obtain rfl : sid = sid' := Option.some_inj.mp (ht.segment.symm.trans halone.2)
    have hcache : e.impl.cache.getTidOffset tid = (offset, e.impl.cache) := by
      rw [DBCache.getTidOffset, getD_eq ht.offset, insert_eq_self ht.offset]
    refine ⟨e.put w e.impl (.adding tid (docs w) ⟨[], sid, offset, false⟩), ?_,
      .busy w hsettled hf ?_ ?_⟩
    · rw [Executor.step, hp, RocksdbLab.work, hcache]
      rfl
    · rw [Executor.phase_put_not]
      exact hout (!w)
    · rw [Executor.phase_put_self]
      exact .adding (List.nil_append _).symm rfl
  | done => exact ⟨e.put w e.impl (.done .ok), by rw [Executor.step, hp]; rfl, hquiet .done⟩

/-- A step of the worker that is inside. -/
theorem Inside.step (hms : ∀ w, Serialized (docs w) (ms w)) (hdistinct : DistinctUids ms)
    (hsettled : Settled name tid schema docs ms fin base n sid offset) (hfin : fin w = false)
    (hout : Outside tid (fin (!w)) (e.phase (!w)))
    (hin : Inside tid base sid offset (docs w) e.impl (e.phase w)) :
    ∃ e', e.step name docs w = some e' ∧ Serial name tid schema docs ms e' := by
  obtain ⟨impl', p', hwork, hnext⟩ := hin.work hsettled (hms w) hfin
  refine ⟨e.put w impl' p', by rw [Executor.step, hwork]; rfl, ?_⟩
  rcases hnext with hin' | ⟨rfl, c, hrun, rfl⟩
  · refine .busy w hsettled hfin ?_ ?_
    · rw [Executor.phase_put_not]
      exact hout
    · rw [Executor.phase_put_self]
      exact hin'
  · refine .quiet (hsettled.commit (hms w) hdistinct hfin hrun) fun v => ?_
    by_cases heq : v = w
    · subst heq
      rw [Executor.phase_put_self, Function.update_self]
      exact .done
    · rw [Executor.phase_put_of_ne _ _ _ _ heq, Function.update_of_ne heq, Bool.eq_not_of_ne heq]
      exact hout

/-- A step of the other worker, which does not read the offset. -/
theorem Outside.step (hsettled : Settled name tid schema docs ms fin base n sid offset)
    (hfin : fin (!w) = false) (hout : Outside tid (fin w) (e.phase w))
    (hin : Inside tid base sid offset (docs (!w)) e.impl (e.phase (!w))) (halone : Alone e w) :
    ∃ e', e.step name docs w = some e' ∧ Serial name tid schema docs ms e' := by
  have ht := hsettled.table
  obtain ⟨hschema, htid⟩ := hin.cache_eq name
  have hinside := hin.inside
  have hbusy : ∀ {p : Phase}, Outside tid (fin w) p →
      Serial name tid schema docs ms (e.put w e.impl p) := by
    intro p hp
    refine .busy (!w) hsettled hfin ?_ ?_
    · rw [Bool.not_not, Executor.phase_put_self]
      exact hp
    · rw [Executor.phase_put_not]
      exact hin
  generalize hp : e.phase w = p at hout
  generalize fin w = b at hout hbusy
  cases hout with
  | waiting =>
    refine ⟨e.put w e.impl (.found tid), ?_, hbusy .found⟩
    rw [Executor.step, hp, RocksdbLab.work, hschema, htid,
      show base.cache.getSchema name = _ from ht.schema,
      show base.cache.getTidByTname name = _ from ht.id]
    rfl
  | found =>
    obtain ⟨s, hs⟩ := hin.getSegId ht.segment
    refine ⟨e.put w e.impl (.segment tid s), ?_, hbusy (.segment s)⟩
    rw [Executor.step, hp, RocksdbLab.work, hs]
    rfl
  | segment s =>
    rw [Alone, hp] at halone
    rw [halone.1] at hinside
    cases hinside
  | done => exact ⟨e.put w e.impl (.done .ok), by rw [Executor.step, hp]; rfl, hbusy .done⟩

/-- **One step** of a worker that is alone when it reads the offset. -/
theorem Serial.step (hms : ∀ w, Serialized (docs w) (ms w)) (hdistinct : DistinctUids ms)
    (h : Serial name tid schema docs ms e) (halone : Alone e w) :
    ∃ e', e.step name docs w = some e' ∧ Serial name tid schema docs ms e' := by
  cases h with
  | quiet hsettled hout => exact hsettled.step hout halone
  | busy v hsettled hfin hout hin =>
    by_cases heq : w = v
    · subst heq
      exact hin.step hms hdistinct hsettled hfin hout
    · obtain rfl : v = !w := Bool.eq_not_of_ne (Ne.symm heq)
      rw [Bool.not_not] at hout
      exact hout.step hsettled hfin hin halone

/-- When both have been executed, everything is kept. -/
theorem Serial.keptAll (h : Serial name tid schema docs ms e) (hfinished : e.Finished) :
    KeptAll e.impl.db tid (ms false ++ ms true) := by
  cases h with
  | @quiet fin n sid offset hsettled hout =>
    have hfin : ∀ w, fin w = true := by
      intro w
      have hdone := hfinished w
      have hphase := hout w
      generalize fin w = b at hphase
      generalize e.phase w = p at hphase hdone
      cases hphase with
      | waiting => cases hdone
      | found => cases hdone
      | segment s => cases hdone
      | done => rfl
    refine ⟨fun m hm => ?_, (hsettled.layout.table hsettled.table).inj⟩
    rcases List.mem_append.mp hm with hm | hm
    · exact hsettled.kept false (hfin _) m hm
    · exact hsettled.kept true (hfin _) m hm
  | @busy base fin n sid offset w hsettled hfin hout hin =>
    have hdone := hfinished w
    generalize e.phase w = p at hin hdone
    generalize e.impl = impl at hin
    cases hin <;> cases hdone

end Steps

/-- **Two workers keep all documents**, in every interleaving in which neither reads the offset
while the other is between reading and setting it, or after the other has gone on to the next
segment.

The cache is locked for each access and not for a request as a whole. In the runs that are left the
two requests take turns, although not in one piece: `Serial` says that at most one of them is
inside, and what the store and the cache are like when nobody is. -/
theorem workers_keep_all {ops : List Op} {impl : RocksDBImpl} {name : Bytes}
    {tid sid offset : UInt64} {schema : DocSchema} {docs : Bool → List Doc}
    {ms : Bool → List Fields} {schedule : List Bool} (hrun : runSteps step opened ops = some impl)
    (htables : tableCount ops < 2 ^ 64)
    (hcount : docCount ops + ((docs false).length + (docs true).length) < slotLimit)
    (ht : Table impl name tid schema sid offset) (hms : ∀ w, Serialized (docs w) (ms w))
    (hnew : ∀ w, ∀ m ∈ ms w, NewIn impl.db tid m) (hdistinct : DistinctUids ms)
    (halone : Along (Executor.step name docs) Alone (Executor.start impl) schedule) :
    ∃ e, runSteps (Executor.step name docs) (Executor.start impl) schedule = some e ∧
      (e.Finished → KeptAll e.impl.db tid (ms false ++ ms true)) := by
  have hstart : Serial name tid schema docs ms (Executor.start impl) := by
    refine @Serial.quiet _ _ _ _ _ _ (fun _ => false) _ _ _
      ⟨Layout.run hrun htables (by omega), AllVacant.run hrun htables (by omega), ht, ?_,
        fun w hw => (by cases hw), fun w _ => hnew w⟩ fun w => .waiting
    simpa [remaining] using hcount
  obtain ⟨e, he, hserial⟩ := halone.run_inv (I := Serial name tid schema docs ms)
    (fun e w h ha => h.step hms hdistinct ha) hstart
  exact ⟨e, he, hserial.keptAll⟩

/-! ## Two requests for a new table -/

/-- A request of one document for each worker. -/
def pairRequests : Bool → List Doc
  | false => [pairDoc 1 5]
  | true => [pairDoc 2 7]

def pairFields (w : Bool) : List Fields := (pairRequests w).map fun d => d.serialize.getD ∅

/-- A table without documents. -/
def pairImpl : RocksDBImpl := (opened.createTable pairs pairSchema).2

theorem pairImpl_table : ∃ schema, Table pairImpl pairs 0 schema 0 0 := by
  have hid : pairImpl.cache.tnamemap[pairs]? = some 0 := by decide +kernel
  have hmem : pairs ∈ pairImpl.cache.tschemamap := by decide +kernel
  obtain ⟨schema, hschema⟩ := mem_iff_exists.mp hmem
  exact ⟨schema, hid, hschema, by decide +kernel, by decide +kernel⟩

theorem pairFields_serialized (w : Bool) : Serialized (pairRequests w) (pairFields w) := by
  have hone : ∀ pk a, (pairDoc pk a).serialize = some ((pairDoc pk a).serialize.getD ∅) := by
    intro pk a
    obtain ⟨m, hm, -⟩ := (pairDoc_conforms pk a).serialize pairSchema_fixed
    rw [hm]
    rfl
  cases w with
  | false => exact .cons (hone 1 5) .nil
  | true => exact .cons (hone 2 7) .nil

theorem pairFields_uids : ∀ w, (pairFields w).map (fun m => m[(0 : UInt8)]?) =
    [some (serialize (if w then 2 else 1))] := by
  decide +kernel

theorem pairFields_new : ∀ w, ∀ m ∈ pairFields w, NewIn pairImpl.db 0 m := by
  intro w m hm
  have huid := List.mem_map_of_mem (f := fun m : Fields => m[(0 : UInt8)]?) hm
  rw [pairFields_uids] at huid
  refine ⟨_, List.mem_singleton.mp huid, ?_⟩
  cases w <;> decide +kernel

theorem pairFields_distinct : DistinctUids pairFields := by
  intro w
  rw [pairFields_uids]
  refine ⟨List.nodup_singleton _, fun m hm => ?_⟩
  have huid := List.mem_map_of_mem (f := fun m : Fields => m[(0 : UInt8)]?) hm
  rw [pairFields_uids] at huid
  rw [List.mem_singleton.mp huid]
  cases w <;> decide

/-- Both begin, and the second waits with reading the cursor until the first has set it. -/
def inTurn : List Bool :=
  [false, true, false, true, false, false, false, false, false] ++ List.replicate 5 true

theorem workers_keep_all_inTurn : ∃ e, runSteps (Executor.step pairs pairRequests)
      (Executor.start pairImpl) inTurn = some e ∧
    e.Finished ∧ KeptAll e.impl.db 0 (pairFields false ++ pairFields true) := by
  obtain ⟨schema, ht⟩ := pairImpl_table
  obtain ⟨e, hrun, hkept⟩ := @workers_keep_all [.createTable pairs pairSchema] pairImpl pairs 0 0 0
    schema pairRequests pairFields inTurn rfl (by decide)
    (by decide) ht pairFields_serialized pairFields_new pairFields_distinct (by decide +kernel)
  have hfinished : (runSteps (Executor.step pairs pairRequests) (Executor.start pairImpl)
      inTurn).map (fun e => decide e.Finished) = some true := by
    decide +kernel
  rw [hrun] at hfinished
  have hfinished := of_decide_eq_true (Option.some_inj.mp hfinished)
  exact ⟨e, hrun, hfinished, hkept hfinished⟩

/-- Both read the cursor, and then go on: the documents have the same location. -/
theorem workers_share_location : ∃ e, runSteps (Executor.step pairs pairRequests)
      (Executor.start pairImpl)
      ([false, false, false, true, true, true] ++ List.replicate 4 false ++ List.replicate 4 true) =
      some e ∧
    (∀ w, Serialized (pairRequests w) (pairFields w)) ∧
    (∀ w, ∀ m ∈ pairFields w, NewIn pairImpl.db 0 m) ∧ DistinctUids pairFields ∧
    e.Finished ∧ ¬KeptAll e.impl.db 0 (pairFields false ++ pairFields true) := by
  have hend : (runSteps (Executor.step pairs pairRequests) (Executor.start pairImpl)
      ([false, false, false, true, true, true] ++ List.replicate 4 false ++
        List.replicate 4 true)).map (fun e => (decide e.Finished,
          e.impl.db.read (.uidIdMapping 0 (serialize 1)),
          e.impl.db.read (.uidIdMapping 0 (serialize 2)))) =
      some (true, some (addr 0 0), some (addr 0 0)) := by
    decide +kernel
  obtain ⟨e, hrun, heq⟩ := Option.map_eq_some_iff.mp hend
  simp only [Prod.mk.injEq, decide_eq_true_eq] at heq
  obtain ⟨hfinished, hfirst, hsecond⟩ := heq
  refine ⟨e, hrun, pairFields_serialized, pairFields_new, pairFields_distinct, hfinished, fun h => ?_⟩
  exact absurd (h.distinct _ _ _ hfirst hsecond) (by decide)

end CxxLab.RocksdbLab
