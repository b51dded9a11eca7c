import CxxLab.RocksdbLab.Runs
import CxxLab.RocksdbLab.Writes
import Mathlib.Order.Basic

/-!
# Where documents are

A table is filled segment by segment, so locations are in order, and the cursor is above all of
them. `Placed` says this of the uid records of one table, and that no two uids share a location.
It does not matter for it what the documents are, or that a batch looks up the store as it was
before it: a location the batch finds there is one of the old ones, and a location it hands out is
above these. `Ahead` is that relation between the two stores.

Segment numbers wrap around like table ids do. A `slot` is the number of a location in the table,
and as long as slots are below `slotLimit` the cursor only moves up.
-/

set_option autoImplicit false

namespace CxxLab.RocksdbLab

open Std CxxLab.Lib RocksDBImpl

/-! ## Slots -/

/-- The number of a location. -/
def slot (l : Location) : Nat := l.1.toNat * segmentSize.toNat + l.2.toNat

/-- The number of slots of a table. -/
def slotLimit : Nat := 2 ^ 64 * segmentSize.toNat

theorem lt_segmentSize {o : UInt64} : o < segmentSize ↔ o.toNat < 50000 := UInt64.lt_iff_toNat_lt

theorem slot_eq (l : Location) : slot l = l.1.toNat * 50000 + l.2.toNat := rfl

theorem slot_lt_iff {s o s' o' : UInt64} (ho : o < segmentSize) (ho' : o' < segmentSize) :
    slot (s, o) < slot (s', o') ↔ s < s' ∨ s = s' ∧ o < o' := by
  rw [lt_segmentSize] at ho ho'
  rw [slot_eq, slot_eq, UInt64.lt_iff_toNat_lt, UInt64.lt_iff_toNat_lt, ← UInt64.toNat_inj]
  show s.toNat * 50000 + o.toNat < s'.toNat * 50000 + o'.toNat ↔ _
  omega

theorem slot_inj {s o s' o' : UInt64} (ho : o < segmentSize) (ho' : o' < segmentSize)
    (h : slot (s, o) = slot (s', o')) : s = s' ∧ o = o' := by
  rw [lt_segmentSize] at ho ho'
  have h : s.toNat * 50000 + o.toNat = s'.toNat * 50000 + o'.toNat := h
  rw [← UInt64.toNat_inj, ← UInt64.toNat_inj]
  omega

/-- **The cursor moves up by one.** -/
theorem slot_advance {sid offset : UInt64} (ho : offset < segmentSize)
    (hroom : slot (sid, offset) + 1 < slotLimit) :
    (advance sid offset).2 < segmentSize ∧
      slot (advance sid offset) = slot (sid, offset) + 1 := by
  have hsize : segmentSize.toNat = 50000 := rfl
  have ho' := lt_segmentSize.mp ho
  have hroom : sid.toNat * 50000 + offset.toNat + 1 < 2 ^ 64 * 50000 := hroom
  have hnext : (offset + 1).toNat = offset.toNat + 1 := Catalog.toNat_add_one (by omega)
  have hroll : offset + 1 ≥ segmentSize ↔ 50000 ≤ offset.toNat + 1 := by
    rw [ge_iff_le, UInt64.le_iff_toNat_le, hnext, hsize]
  rw [advance]
  split
  · rename_i hfull
    rw [hroll] at hfull
    have hsid : (sid + 1).toNat = sid.toNat + 1 := Catalog.toNat_add_one (by omega)
    refine ⟨(by decide : (0 : UInt64) < segmentSize), ?_⟩
    show (sid + 1).toNat * 50000 + 0 = sid.toNat * 50000 + offset.toNat + 1
    omega
  · rename_i hmore
    rw [hroll] at hmore
    refine ⟨by rw [lt_segmentSize, hnext]; omega, ?_⟩
    show sid.toNat * 50000 + (offset + 1).toNat = sid.toNat * 50000 + offset.toNat + 1
    omega

/-! ## One table -/

/-- **The documents of a table are below its cursor, each in a place of its own.** -/
structure Placed (S : Store) (tid sid offset : UInt64) : Prop where
  offset_lt : offset < segmentSize
  below : ∀ uid a, S.read (.uidIdMapping tid uid) = some a →
    ∃ s o, a = addr s o ∧ o < segmentSize ∧ slot (s, o) < slot (sid, offset)
  inj : ∀ uid uid' a, S.read (.uidIdMapping tid uid) = some a →
    S.read (.uidIdMapping tid uid') = some a → uid = uid'

namespace Placed

variable {S : Store} {tid sid offset : UInt64}

theorem located (h : Placed S tid sid offset) : Located S tid := by
  intro uid a hread
  obtain ⟨s, o, rfl, -, -⟩ := h.below uid a hread
  exact ⟨s, o, rfl⟩

theorem lt (h : Placed S tid sid offset) {uid : Bytes} {s o : UInt64}
    (hread : S.read (.uidIdMapping tid uid) = some (addr s o)) :
    o < segmentSize ∧ slot (s, o) < slot (sid, offset) := by
  obtain ⟨s', o', heq, ho, hlt⟩ := h.below uid _ hread
  obtain ⟨rfl, rfl⟩ := addr_inj.mp heq
  exact ⟨ho, hlt⟩

theorem segment_le (h : Placed S tid sid offset) {uid : Bytes} {s o : UInt64}
    (hread : S.read (.uidIdMapping tid uid) = some (addr s o)) : s ≤ sid := by
  obtain ⟨ho, hlt⟩ := h.lt hread
  rcases (slot_lt_iff ho h.offset_lt).mp hlt with hs | ⟨rfl, -⟩
  · exact UInt64.le_of_lt hs
  · exact UInt64.le_refl _

theorem congr {T : Store} (h : Placed S tid sid offset)
    (hread : ∀ uid, T.read (.uidIdMapping tid uid) = S.read (.uidIdMapping tid uid)) :
    Placed T tid sid offset := by
  refine ⟨h.offset_lt, fun uid a => ?_, fun uid uid' a => ?_⟩
  · rw [hread]
    exact h.below uid a
  · rw [hread, hread]
    exact h.inj uid uid' a

/-- Where a document goes and what it leaves are not locations of other documents. -/
theorem placement_ne (h : Placed S tid sid offset) {uid : Option Bytes} {u : Bytes} {s o : UInt64}
    (hne : uid ≠ some u) (hu : S.read (.uidIdMapping tid u) = some (addr s o)) :
    ¬(s = sid ∧ o = (placement S tid sid offset uid).offsetUsed) ∧
      (placement S tid sid offset uid).old ≠ some (s, o) := by
  have hlt := (h.lt hu).2
  have hsame : ∀ {a}, uidRecord S tid uid = some a →
      S.read (.uidIdMapping tid u) = some a → False := by
    intro a hrecord hu'
    obtain ⟨u', rfl, hu''⟩ := Option.bind_eq_some_iff.mp hrecord
    exact hne (congrArg some (h.inj u' u a hu'' hu'))
  rcases placement_cases sid offset uid h.located with
    ⟨-, hp⟩ | ⟨o', hin, hp⟩ | ⟨s', o', -, hmove, hp⟩ <;> rw [hp]
  · refine ⟨?_, by simp⟩
    rintro ⟨rfl, rfl⟩
    exact absurd hlt (Nat.lt_irrefl _)
  · refine ⟨?_, by simp⟩
    rintro ⟨rfl, rfl⟩
    exact hsame hin hu
  · refine ⟨?_, ?_⟩
    · rintro ⟨rfl, rfl⟩
      exact absurd hlt (Nat.lt_irrefl _)
    · intro heq
      cases heq
      exact hsame hmove hu

theorem mono (h : Placed S tid sid offset) {sid' offset' : UInt64} (ho : offset' < segmentSize)
    (hle : slot (sid, offset) ≤ slot (sid', offset')) : Placed S tid sid' offset' := by
  refine ⟨ho, fun uid a hread => ?_, h.inj⟩
  obtain ⟨s, o, rfl, hos, hlt⟩ := h.below uid a hread
  exact ⟨s, o, rfl, hos, Nat.lt_of_lt_of_le hlt hle⟩

/-- A document stays at its own location or leaves it. -/
theorem placement_own (h : Placed S tid sid offset) {uid : Bytes} {s o : UInt64}
    (hu : S.read (.uidIdMapping tid uid) = some (addr s o)) :
    (s = sid ∧ o = (placement S tid sid offset (some uid)).offsetUsed) ∨
      (placement S tid sid offset (some uid)).old = some (s, o) := by
  rcases placement_cases sid offset (some uid) h.located with
    ⟨hnone, hp⟩ | ⟨o', hin, hp⟩ | ⟨s', o', -, hmove, hp⟩ <;> rw [hp]
  · cases hnone.symm.trans hu
  · obtain ⟨rfl, rfl⟩ := addr_inj.mp (Option.some_inj.mp (hin.symm.trans hu))
    exact .inl ⟨rfl, rfl⟩
  · obtain ⟨rfl, rfl⟩ := addr_inj.mp (Option.some_inj.mp (hmove.symm.trans hu))
    exact .inr rfl

theorem empty (hread : ∀ uid, S.read (.uidIdMapping tid uid) = none) : Placed S tid 0 0 := by
  refine ⟨by decide, fun uid a h => ?_, fun uid _ a h => ?_⟩ <;> rw [hread] at h <;> cases h

end Placed

/-- `T` is what a batch has made of `S` so far: the cursor has moved up from `(sid₀, off₀)`, and
documents are where they were or above that. -/
structure Ahead (S T : Store) (tid sid₀ off₀ sid off : UInt64) : Prop where
  start : Placed S tid sid₀ off₀
  placed : Placed T tid sid off
  le : slot (sid₀, off₀) ≤ slot (sid, off)
  fresh : ∀ uid s o, T.read (.uidIdMapping tid uid) = some (addr s o) →
    S.read (.uidIdMapping tid uid) = some (addr s o) ∨ slot (sid₀, off₀) ≤ slot (s, o)

namespace Ahead

variable {S T : Store} {tid sid₀ off₀ sid off : UInt64}

theorem refl (h : Placed S tid sid off) : Ahead S S tid sid off sid off :=
  ⟨h, h, Nat.le_refl _, fun _ _ _ hread => .inl hread⟩

/-- A uid may get a location that no other uid has. -/
theorem put (h : Ahead S T tid sid₀ off₀ sid off) {U : Store} {uid : Option Bytes}
    {sid' off' s o : UInt64}
    (hread : ∀ u, U.read (.uidIdMapping tid u) =
      if uid = some u then some (addr s o) else T.read (.uidIdMapping tid u))
    (hcursor : off' < segmentSize) (hup : slot (sid, off) ≤ slot (sid', off'))
    (ho : o < segmentSize) (hbelow : slot (s, o) < slot (sid', off'))
    (hfree : ∀ u, uid ≠ some u → T.read (.uidIdMapping tid u) ≠ some (addr s o))
    (hfresh : ∀ u, uid = some u → S.read (.uidIdMapping tid u) = some (addr s o) ∨
      slot (sid₀, off₀) ≤ slot (s, o)) : Ahead S U tid sid₀ off₀ sid' off' := by
  refine ⟨h.start, ⟨hcursor, fun u a hu => ?_, fun u u' a hu hu' => ?_⟩, h.le.trans hup,
    fun u s' o' hu => ?_⟩
  · rw [hread] at hu
    split at hu
    · cases hu
      exact ⟨s, o, rfl, ho, hbelow⟩
    · obtain ⟨s', o', rfl, ho', hlt⟩ := h.placed.below u a hu
      exact ⟨s', o', rfl, ho', Nat.lt_of_lt_of_le hlt hup⟩
  · rw [hread] at hu hu'
    split at hu <;> split at hu'
    · rename_i h₁ h₂
      exact Option.some_inj.mp (h₁.symm.trans h₂)
    · rename_i h₂
      cases hu
      exact absurd hu' (hfree u' h₂)
    · rename_i h₁ _
      cases hu'
      exact absurd hu (hfree u h₁)
    · exact h.placed.inj u u' a hu hu'
  · rw [hread] at hu
    split at hu
    · rename_i heq
      obtain ⟨rfl, rfl⟩ := addr_inj.mp (Option.some_inj.mp hu)
      exact hfresh u heq
    · exact h.fresh u s' o' hu

/-- **One document of a batch.** -/
theorem doc (h : Ahead S T tid sid₀ off₀ sid off) {m : ExtTreeMap UInt8 Bytes}
    (hold : Replaceable S tid sid off m) (hroom : slot (sid, off) + 1 < slotLimit) :
    let next := nextLocation sid off (placement S tid sid off m[(0 : UInt8)]?)
    Ahead S (T.apply (docWrites S tid sid off m)) tid sid₀ off₀ next.1 next.2 ∧
      slot next ≤ slot (sid, off) + 1 := by
  intro next
  have hlocated := h.start.located
  obtain ⟨hoff, hslot⟩ := slot_advance h.placed.offset_lt hroom
  have hread := read_docWrites_uid hlocated hold T
  -- A new place is the cursor's, and all others are below it.
  have hnew : (placement S tid sid off m[(0 : UInt8)]?).hasNew = true →
      (placement S tid sid off m[(0 : UInt8)]?).offsetUsed = off →
      Ahead S (T.apply (docWrites S tid sid off m)) tid sid₀ off₀ next.1 next.2 ∧
        slot next ≤ slot (sid, off) + 1 := by
    intro hnew hused
    have hnext : next = advance sid off := if_pos hnew
    rw [hused] at hread
    rw [hnext]
    refine ⟨h.put hread hoff ?_ h.placed.offset_lt ?_ (fun u _ hu => ?_) fun _ _ => .inr h.le, hslot.le⟩
    · exact (Nat.le_succ _).trans hslot.ge
    · exact Nat.lt_of_lt_of_eq (Nat.lt_succ_self _) hslot.symm
    · exact absurd (h.placed.lt hu).2 (Nat.lt_irrefl _)
  rcases placement_cases sid off m[(0 : UInt8)]? hlocated with
    ⟨-, hp⟩ | ⟨o, hrecord, hp⟩ | ⟨s, o, -, -, hp⟩
  · exact hnew (by rw [hp]) (by rw [hp])
  · obtain ⟨uid, huid, hrecord⟩ := Option.bind_eq_some_iff.mp hrecord
    have hnext : next = (sid, off) := if_neg (by rw [hp]; exact Bool.false_ne_true)
    obtain ⟨ho, hlt⟩ := h.start.lt hrecord
    rw [hp] at hread
    rw [hnext]
    refine ⟨h.put hread h.placed.offset_lt (Nat.le_refl _) ho (Nat.lt_of_lt_of_le hlt h.le)
      (fun u hne hu => ?_) (fun u heq => ?_), Nat.le_succ _⟩
    · rcases h.fresh u _ _ hu with hu | hge
      · exact hne (h.start.inj u uid _ hu hrecord ▸ huid)
      · exact absurd hlt (Nat.not_lt.mpr hge)
    · rw [huid, Option.some_inj] at heq
      exact .inl (heq ▸ hrecord)
  · exact hnew (by rw [hp]) (by rw [hp])

theorem trans {U : Store} {sid' off' : UInt64} (h : Ahead S T tid sid₀ off₀ sid off)
    (h' : Ahead T U tid sid off sid' off') : Ahead S U tid sid₀ off₀ sid' off' := by
  refine ⟨h.start, h'.placed, h.le.trans h'.le, fun uid s o hu => ?_⟩
  rcases h'.fresh uid s o hu with hT | hge
  · exact h.fresh uid s o hT
  · exact .inr (h.le.trans hge)

/-- **A batch.** -/
theorem batch {docs : List Doc} : ∀ {c c' : Cursor},
    docs.foldlM (addDocTo S tid) c = some c' →
    Ahead S (S.apply c.wb) tid sid₀ off₀ c.sid c.offset →
    slot (c.sid, c.offset) + docs.length < slotLimit →
    Ahead S (S.apply c'.wb) tid sid₀ off₀ c'.sid c'.offset ∧
      slot (c'.sid, c'.offset) ≤ slot (c.sid, c.offset) + docs.length := by
  induction docs with
  | nil =>
    intro c c' hrun h _
    cases hrun
    exact ⟨h, Nat.le_add_right _ _⟩
  | cons d docs ih =>
    intro c c' hrun h hroom
    rw [List.foldlM_cons] at hrun
    rw [List.length_cons] at hroom ⊢
    obtain ⟨c₁, hdoc, hrest⟩ := Option.bind_eq_some_iff.mp hrun
    obtain ⟨m, -, hold, rfl⟩ := (addDocTo_eq_some h.start.located).mp hdoc
    obtain ⟨hone, hup⟩ := h.doc hold (by omega)
    rw [← KVStore.apply_append] at hone
    obtain ⟨hall, hle⟩ := ih hrest hone (by
      show slot (nextLocation c.sid c.offset _) + _ < _
      omega)
    refine ⟨hall, hle.trans ?_⟩
    show slot (nextLocation c.sid c.offset _) + _ ≤ _
    omega

end Ahead

/-! ## All tables -/

/-- **All tables are laid out**, and none has used more than `n` slots. -/
structure Layout (impl : RocksDBImpl) (n : Nat) : Prop where
  catalog : Catalog impl
  placed : ∀ tid sid offset, impl.cache.segmap[tid]? = some sid →
    impl.cache.offset[tid]? = some offset →
    Placed impl.db tid sid offset ∧ slot (sid, offset) ≤ n
  fresh : ∀ tid, ¬tid < impl.cache.tid → ∀ uid, impl.db.read (.uidIdMapping tid uid) = none

namespace Layout

variable {impl impl' : RocksDBImpl} {n : Nat}

theorem table (h : Layout impl n) {name : Bytes} {tid sid offset : UInt64} {schema : DocSchema}
    (ht : Table impl name tid schema sid offset) : Placed impl.db tid sid offset :=
  (h.placed tid sid offset ht.segment ht.offset).1

theorem slot_le (h : Layout impl n) {name : Bytes} {tid sid offset : UInt64} {schema : DocSchema}
    (ht : Table impl name tid schema sid offset) : slot (sid, offset) ≤ n :=
  (h.placed tid sid offset ht.segment ht.offset).2

theorem opened : Layout opened 0 := by
  refine ⟨Catalog.opened, fun tid sid offset hs => (by cases hs), fun tid _ uid => ?_⟩
  rw [opened_read, if_neg (by simp)]

theorem created (h : Layout impl n) {name : Bytes} {schema : DocSchema}
    (hnew : impl.db.read (.table name) = none) (hfixed : schema.fixed = true)
    (hroom : impl.cache.tid.toNat + 1 < 2 ^ 64) : Layout (impl.created name schema) n := by
  have hread : ∀ tid uid, (impl.created name schema).db.read (.uidIdMapping tid uid) =
      impl.db.read (.uidIdMapping tid uid) := fun _ _ => Catalog.read_created_ofDoc schema rfl
  refine ⟨h.catalog.created hnew hfixed hroom, fun tid sid offset hs ho => ?_, fun tid htid uid => ?_⟩
  · simp only [RocksDBImpl.created, getElem?_insert_eq] at hs ho
    split at hs
    · rename_i heq
      cases hs
      rw [if_pos heq] at ho
      cases ho
      refine ⟨Placed.empty fun uid => ?_, Nat.zero_le n⟩
      rw [hread]
      exact h.fresh tid (heq ▸ UInt64.lt_irrefl _) uid
    · rename_i hne
      rw [if_neg hne] at ho
      obtain ⟨hplaced, hle⟩ := h.placed tid sid offset hs ho
      exact ⟨hplaced.congr (hread tid), hle⟩
  · rw [hread]
    refine h.fresh tid (fun hlt => htid ?_) uid
    exact (Catalog.lt_add_one hroom).mpr (.inr hlt)

theorem commit (h : Layout impl n) {name : Bytes} {tid sid offset : UInt64} {schema : DocSchema}
    {docs : List Doc} {c : Cursor} (ht : Table impl name tid schema sid offset)
    (hrun : docs.foldlM (addDocTo impl.db tid) ⟨[], sid, offset, false⟩ = some c)
    (hroom : n + docs.length < slotLimit) : Layout (impl.commit tid c) (n + docs.length) := by
  have hplaced := h.table ht
  have hle := h.slot_le ht
  obtain ⟨hahead, hup⟩ := (Ahead.refl hplaced).batch hrun (by show slot (sid, offset) + _ < _; omega)
  have hother : ∀ t, t ≠ tid → ∀ uid, (impl.commit tid c).db.read (.uidIdMapping t uid) =
      impl.db.read (.uidIdMapping t uid) := fun t hne uid =>
    foldlM_addDocTo_frame hplaced.located hrun rfl hne
  refine ⟨h.catalog.commit ht ((h.catalog.registry.sound ht).addDocs hrun), fun t s o hs ho => ?_,
    fun t hnot uid => ?_⟩
  · simp only [RocksDBImpl.commit, getElem?_insert_eq] at hs ho
    split at hs
    · rename_i heq
      cases hs
      rw [if_pos heq] at ho
      cases ho
      cases heq
      exact ⟨hahead.placed, hup.trans (Nat.add_le_add_right hle _)⟩
    · rename_i hne
      rw [if_neg hne] at ho
      obtain ⟨hold, hle⟩ := h.placed t s o hs ho
      exact ⟨hold.congr (hother t hne), Nat.le_add_right_of_le hle⟩
  · have hne : t ≠ tid := by
      rintro rfl
      exact hnot (h.catalog.name_lt ht.id)
    rw [hother t hne]
    exact h.fresh t hnot uid

theorem mono (h : Layout impl n) {n' : Nat} (hn : n ≤ n') : Layout impl n' :=
  ⟨h.catalog, fun tid sid offset hs ho =>
    ⟨(h.placed tid sid offset hs ho).1, (h.placed tid sid offset hs ho).2.trans hn⟩, h.fresh⟩

/-- **One call.** -/
theorem step (h : Layout impl n) {op : Op} (hstep : step impl op = some impl')
    (htables : impl.cache.tid.toNat + op.tables < 2 ^ 64) (hdocs : n + op.docs < slotLimit) :
    Layout impl' (n + op.docs) := by
  rcases step_cases h.catalog.registry hstep with rfl | ⟨name, schema, rfl, hnew, hfixed, rfl⟩ |
    ⟨name, docs, tid, schema, sid, offset, c, hbatch, ht, hrun, rfl⟩
  · exact h.mono (Nat.le_add_right _ _)
  · exact h.created hnew hfixed htables
  · rw [← Op.length_batch hbatch] at hdocs ⊢
    exact h.commit ht hrun hdocs

/-- The induction over runs that use up neither table ids nor segments. -/
theorem run_history {I : List Op → RocksDBImpl → Prop} {ops : List Op}
    (hstart : I [] RocksDBImpl.opened)
    (hrun : runSteps RocksDBImpl.step RocksDBImpl.opened ops = some impl)
    (htables : tableCount ops < 2 ^ 64) (hdocs : docCount ops < slotLimit)
    (hstep : ∀ pre s op s', Layout s (docCount pre) → I pre s → RocksDBImpl.step s op = some s' →
      s.cache.tid.toNat + op.tables < 2 ^ 64 → docCount pre + op.docs < slotLimit →
      I (pre ++ [op]) s') : Layout impl (docCount ops) ∧ I ops impl := by
  refine (runSteps_history (I := fun ops impl =>
      impl.cache.tid.toNat ≤ tableCount ops ∧ Layout impl (docCount ops) ∧ I ops impl)
    ⟨Nat.zero_le _, opened, hstart⟩ hrun fun pre s op s' hpre ⟨htid, h, hI⟩ hop => ?_).2
  have htables := Nat.lt_of_le_of_lt (tableCount_le hpre) htables
  have hdocs := Nat.lt_of_le_of_lt (docCount_le hpre) hdocs
  rw [tableCount_concat] at htables ⊢
  rw [docCount_concat] at hdocs ⊢
  exact ⟨(h.catalog.step hop (by omega)).2.trans (by omega), h.step hop (by omega) hdocs,
    hstep pre s op s' h hI hop (by omega) hdocs⟩

/-- **Every run** that uses up neither table ids nor segments. -/
theorem run {ops : List Op} (hrun : runSteps RocksDBImpl.step RocksDBImpl.opened ops = some impl)
    (htables : tableCount ops < 2 ^ 64) (hdocs : docCount ops < slotLimit) :
    Layout impl (docCount ops) :=
  (run_history (I := fun _ _ => True) trivial hrun htables hdocs fun _ _ _ _ _ _ _ _ _ => trivial).1

end Layout

end CxxLab.RocksdbLab
