import CxxLab.RocksdbLab.Index
import CxxLab.RocksdbLab.Recovery
import CxxLab.RocksdbLab.Documents

/-!
# A batch and a loop

`AddDocs` puts all its documents in one batch, and so looks all of them up in the store as it was
before the first. A loop of `AddDoc` looks each one up in the store the one before has left. Where
the uids of the documents are different, this makes no difference. `addDocs_iff` says exactly what
it takes for documents that share a uid.

Both are runs of `Tip.add`, which adds the fields of a document to a store with lookups in some
store; they differ in this store only.
-/

set_option autoImplicit false

namespace CxxLab.RocksdbLab

open Std CxxLab.Lib RocksDBImpl

/-! ## Adding documents -/

/-- A store, and the cursor of a table of it. -/
structure Tip where
  store : Store
  sid : UInt64
  offset : UInt64

namespace Tip

/-- Where a document goes, when it is looked up in `db`. -/
def place (db : Store) (tid : UInt64) (x : Tip) (m : Fields) : Placement :=
  placement db tid x.sid x.offset m[(0 : UInt8)]?

/-- Add a document that has been looked up in `db`. -/
def add (db : Store) (tid : UInt64) (x : Tip) (m : Fields) : Tip where
  store := x.store.apply (docWrites db tid x.sid x.offset m)
  sid := (nextLocation x.sid x.offset (x.place db tid m)).1
  offset := (nextLocation x.sid x.offset (x.place db tid m)).2

/-- The slot of the cursor. -/
def slot (x : Tip) : Nat := RocksdbLab.slot (x.sid, x.offset)

end Tip

/-- `y` is what adding documents makes of `x`, each looked up in `db` of the tip it is added to.
The old values of all of them are there. -/
def Adds (db : Tip → Store) (tid : UInt64) : Tip → List Fields → Tip → Prop
  | x, [], y => y = x
  | x, m :: ms, y =>
    Replaceable (db x) tid x.sid x.offset m ∧ Adds db tid (x.add (db x) tid m) ms y

namespace Adds

variable {db : Tip → Store} {tid : UInt64}

theorem append : ∀ {as bs : List Fields} {x z : Tip},
    Adds db tid x (as ++ bs) z ↔ ∃ y, Adds db tid x as y ∧ Adds db tid y bs z := by
  intro as
  induction as with
  | nil =>
    intro bs x z
    exact ⟨fun h => ⟨x, rfl, h⟩, fun ⟨y, hy, h⟩ => hy ▸ h⟩
  | cons m as ih =>
    intro bs x z
    simp only [List.cons_append, Adds, ih]
    exact ⟨fun ⟨hm, y, hy, h⟩ => ⟨y, ⟨hm, hy⟩, h⟩, fun ⟨y, ⟨hm, hy⟩, h⟩ => ⟨hm, y, hy, h⟩⟩

theorem concat {ms : List Fields} {m : Fields} {x y : Tip} :
    Adds db tid x (ms ++ [m]) y ↔ ∃ z, Adds db tid x ms z ∧
      Replaceable (db z) tid z.sid z.offset m ∧ y = z.add (db z) tid m := append

theorem unique : ∀ {ms : List Fields} {x y y' : Tip}, Adds db tid x ms y → Adds db tid x ms y' →
    y = y' := by
  intro ms
  induction ms with
  | nil =>
    intro x y y' h h'
    exact Eq.trans h (Eq.symm h')
  | cons m ms ih =>
    intro x y y' h h'
    exact ih h.2 h'.2

/-- The rule for invariants. `W` is what holds of every tip with `k` documents to come. -/
theorem inv {W : Tip → Nat → Prop} {I : Tip → Prop}
    (hW : ∀ x m k, W x (k + 1) → Replaceable (db x) tid x.sid x.offset m →
      W (x.add (db x) tid m) k) : ∀ {ms : List Fields} {x y : Tip} {k : Nat},
    (∀ x m k, m ∈ ms → W x (k + 1) → Replaceable (db x) tid x.sid x.offset m → I x →
      I (x.add (db x) tid m)) →
    Adds db tid x ms y → W x (ms.length + k) → I x → W y k ∧ I y := by
  intro ms
  induction ms with
  | nil =>
    intro x y k _ hrun hw h
    cases hrun
    rw [List.length_nil, Nat.zero_add] at hw
    exact ⟨hw, h⟩
  | cons m ms ih =>
    intro x y k hstep hrun hw h
    obtain ⟨hold, hrest⟩ := hrun
    rw [List.length_cons, Nat.add_right_comm] at hw
    exact ih (fun x m k hm => hstep x m k (List.mem_cons_of_mem _ hm)) hrest (hW x m _ hw hold)
      (hstep x m _ List.mem_cons_self hw hold h)

end Adds

/-- The cursor has moved up from `(sid₀, off₀)` in `S`, and there is room for `k` documents. -/
structure Within (S : Store) (tid sid₀ off₀ : UInt64) (x : Tip) (k : Nat) : Prop where
  ahead : Ahead S x.store tid sid₀ off₀ x.sid x.offset
  room : x.slot + k < slotLimit

namespace Within

variable {S : Store} {tid sid₀ off₀ : UInt64} {x : Tip} {k : Nat} {m : Fields}

theorem start (h : Within S tid sid₀ off₀ x k) : Placed S tid x.sid x.offset :=
  h.ahead.start.mono h.ahead.placed.offset_lt h.ahead.le

theorem segment_le (h : Within S tid sid₀ off₀ x k) : sid₀ ≤ x.sid := by
  by_contra hlt
  have := (slot_lt_iff h.ahead.placed.offset_lt h.ahead.start.offset_lt).mpr
    (.inl (UInt64.not_le.mp hlt))
  exact absurd h.ahead.le (Nat.not_le.mpr this)

/-- **A document of a batch.** -/
theorem batch (h : Within S tid sid₀ off₀ x (k + 1)) (hold : Replaceable S tid x.sid x.offset m) :
    Within S tid sid₀ off₀ (x.add S tid m) k := by
  have hroom : RocksdbLab.slot (x.sid, x.offset) + (k + 1) < slotLimit := h.room
  obtain ⟨hahead, hup⟩ := h.ahead.doc hold (by omega)
  refine ⟨hahead, ?_⟩
  show RocksdbLab.slot (nextLocation x.sid x.offset
    (placement S tid x.sid x.offset m[(0 : UInt8)]?)) + k < slotLimit
  omega

/-- **A document of a loop.** -/
theorem loop (h : Within S tid sid₀ off₀ x (k + 1))
    (hold : Replaceable x.store tid x.sid x.offset m) :
    Within S tid sid₀ off₀ (x.add x.store tid m) k := by
  have hone : Within x.store tid x.sid x.offset x (k + 1) := ⟨Ahead.refl h.ahead.placed, h.room⟩
  exact ⟨h.ahead.trans (hone.batch hold).ahead, (hone.batch hold).room⟩

/-- The cursor moves up by one, or stays. -/
theorem slot_add (h : Within S tid sid₀ off₀ x (k + 1)) (db : Store) :
    (x.add db tid m).slot = x.slot + if (x.place db tid m).hasNew then 1 else 0 := by
  have hroom : RocksdbLab.slot (x.sid, x.offset) + (k + 1) < slotLimit := h.room
  show RocksdbLab.slot (nextLocation x.sid x.offset (x.place db tid m)) =
    RocksdbLab.slot (x.sid, x.offset) + _
  by_cases hnew : (x.place db tid m).hasNew = true
  · rw [nextLocation, if_pos hnew, if_pos hnew]
    exact (slot_advance h.ahead.placed.offset_lt (by omega)).2
  · rw [nextLocation, if_neg hnew, if_neg hnew, Nat.add_zero]

end Within

/-! ## Documents that stay where they are -/

/-- The test of `AddDoc`: a document with this uid is in segment `sid`. -/
def storedIn (S : Store) (tid sid : UInt64) (m : Fields) : Bool :=
  (uidRecord S tid m[(0 : UInt8)]?).any fun a => deserialize a == some sid

/-- **A document of a batch stays where it is**: it is in the segment the batch starts in, and the
documents before it that are not have left room in it. -/
def inPlace (S : Store) (tid sid offset : UInt64) (before : List Fields) (m : Fields) : Bool :=
  storedIn S tid sid m &&
    decide (offset.toNat + before.countP (fun e => !storedIn S tid sid e) < segmentSize.toNat)

section InPlace

variable {S : Store} {tid sid₀ off₀ : UInt64}

theorem storedIn_iff {sid : UInt64} {m : Fields} (h : Located S tid) :
    storedIn S tid sid m = true ↔ ∃ o, uidRecord S tid m[(0 : UInt8)]? = some (addr sid o) := by
  rw [storedIn]
  cases hrecord : uidRecord S tid m[(0 : UInt8)]? with
  | none => simp
  | some a =>
    obtain ⟨u, -, hu⟩ := Option.bind_eq_some_iff.mp hrecord
    obtain ⟨s, o, rfl⟩ := h u a hu
    rw [Option.any_some, deserialize_addr, beq_iff_eq, Option.some_inj]
    constructor
    · rintro rfl
      exact ⟨o, rfl⟩
    · rintro ⟨o', heq⟩
      exact (addr_inj.mp (Option.some_inj.mp heq)).1

theorem place_hasNew_iff {x : Tip} {m : Fields} (h : Located S tid) :
    (x.place S tid m).hasNew = false ↔ storedIn S tid x.sid m = true := by
  rw [storedIn_iff h, Tip.place, placement_hasNew_false h]
  constructor
  · rintro ⟨o, hrecord, -⟩
    exact ⟨o, hrecord⟩
  · rintro ⟨o, hrecord⟩
    exact ⟨o, hrecord, placement_inPlace hrecord⟩

theorem Within.sid_le {x y : Tip} {k j : Nat} (hx : Within S tid sid₀ off₀ x k)
    (hy : Within S tid sid₀ off₀ y j) (hle : x.slot ≤ y.slot) : x.sid ≤ y.sid := by
  by_contra hlt
  have := (slot_lt_iff hy.ahead.placed.offset_lt hx.ahead.placed.offset_lt).mpr
    (.inl (UInt64.not_le.mp hlt))
  exact absurd hle (Nat.not_le.mpr this)

theorem Adds.batch_le {ms : List Fields} {x y : Tip} {k : Nat}
    (hrun : Adds (fun _ => S) tid x ms y) (hx : Within S tid sid₀ off₀ x (ms.length + k)) :
    Within S tid sid₀ off₀ y k ∧ x.slot ≤ y.slot := by
  refine Adds.inv (W := Within S tid sid₀ off₀) (I := fun y => x.slot ≤ y.slot)
    (fun _ _ _ => Within.batch) (fun z m k _ hz _ hle => ?_) hrun hx (Nat.le_refl _)
  rw [hz.slot_add]
  exact Nat.le_add_right_of_le hle

/-- **The segment of a batch**: it is the first one until this is full. -/
theorem Adds.segment_iff : ∀ {before : List Fields} {x y : Tip} {k : Nat},
    Adds (fun _ => S) tid x before y → Within S tid sid₀ off₀ x (before.length + k) →
    x.sid = sid₀ →
    (y.sid = sid₀ ↔ x.offset.toNat + before.countP (fun e => !storedIn S tid sid₀ e) <
      segmentSize.toNat) := by
  intro before
  induction before with
  | nil =>
    intro x y k hrun hx hsid
    cases hrun
    exact iff_of_true hsid (UInt64.lt_iff_toNat_lt.mp hx.ahead.placed.offset_lt)
  | cons m before ih =>
    intro x y k hrun hx hsid
    obtain ⟨hold, hrest⟩ := hrun
    rw [List.length_cons, Nat.add_right_comm] at hx
    have hx' := hx.batch hold
    have hlocated := hx.start.located
    by_cases hstored : storedIn S tid sid₀ m = true
    · have hnew : ¬(x.place S tid m).hasNew = true := by
        rw [Bool.not_eq_true, place_hasNew_iff hlocated, hsid]
        exact hstored
      have hnext : nextLocation x.sid x.offset (x.place S tid m) = (x.sid, x.offset) := if_neg hnew
      have := ih hrest hx' (by rw [Tip.add, hnext]; exact hsid)
      rw [Tip.add, hnext] at this
      rw [this, List.countP_cons_of_neg (by simp [hstored])]
    · have hnew : (x.place S tid m).hasNew = true := by
        rw [← Bool.not_eq_false, place_hasNew_iff hlocated, hsid]
        exact hstored
      have hnext : nextLocation x.sid x.offset (x.place S tid m) = advance x.sid x.offset := if_pos hnew
      have hoffset : x.offset.toNat < segmentSize.toNat :=
        UInt64.lt_iff_toNat_lt.mp hx.ahead.placed.offset_lt
      have hslot := hx.slot_add (m := m) S
      rw [if_pos hnew] at hslot
      have hlen : (x.offset + 1).toNat = x.offset.toNat + 1 := Catalog.toNat_add_one (by
        have : segmentSize.toNat = 50000 := rfl
        omega)
      rw [List.countP_cons_of_pos (by simp [hstored])]
      by_cases hroll : x.offset + 1 ≥ segmentSize
      · -- The first segment is full, and the cursor does not come back to it.
        rw [advance, if_pos hroll] at hnext
        have hfull : segmentSize.toNat ≤ x.offset.toNat + 1 := by
          rw [← hlen]
          exact UInt64.le_iff_toNat_le.mp hroll
        have hoff : (x.add S tid m).offset = 0 := by rw [Tip.add, hnext]
        have hup : sid₀ < (x.add S tid m).sid := by
          have hlt : x.slot < (x.add S tid m).slot := by omega
          rcases (slot_lt_iff hx.ahead.placed.offset_lt hx'.ahead.placed.offset_lt).mp hlt with
            hlt | ⟨-, hlt⟩
          · exact hsid ▸ hlt
          · rw [hoff] at hlt
            exact absurd hlt UInt64.not_lt_zero
        obtain ⟨hy, hle⟩ := hrest.batch_le hx'
        refine iff_of_false (fun heq => ?_) (by omega)
        exact UInt64.lt_irrefl _ (heq ▸ UInt64.lt_of_lt_of_le hup (hx'.sid_le hy hle))
      · rw [advance, if_neg hroll] at hnext
        have := ih hrest hx' (by rw [Tip.add, hnext]; exact hsid)
        rw [Tip.add, hnext] at this
        rw [this, hlen, Nat.add_assoc, Nat.add_comm 1]

/-- **A document of a batch stays where it is.** -/
theorem inPlace_iff {before : List Fields} {y : Tip} {m : Fields} {k : Nat}
    (hstart : Within S tid sid₀ off₀ ⟨S, sid₀, off₀⟩ (before.length + k))
    (hrun : Adds (fun _ => S) tid ⟨S, sid₀, off₀⟩ before y) :
    inPlace S tid sid₀ off₀ before m = true ↔ (y.place S tid m).hasNew = false := by
  obtain ⟨hy, -⟩ := hrun.batch_le hstart
  have hlocated := hy.start.located
  rw [inPlace, Bool.and_eq_true, decide_eq_true_eq, ← hrun.segment_iff hstart rfl,
    place_hasNew_iff hlocated]
  constructor
  · rintro ⟨hstored, rfl⟩
    exact hstored
  · intro hstored
    obtain ⟨o, hrecord⟩ := (storedIn_iff hlocated).mp hstored
    obtain ⟨u, -, hu⟩ := Option.bind_eq_some_iff.mp hrecord
    have hsid := UInt64.le_antisymm (hy.ahead.start.segment_le hu) hy.segment_le
    exact ⟨hsid ▸ hstored, hsid⟩

end InPlace

/-! ## Documents of other uids -/

section Others

variable {S : Store} {tid sid₀ off₀ : UInt64} {u : Bytes}

theorem Tip.read_uid_of_ne {x : Tip} {m : Fields} (hlocated : Located S tid)
    (hold : Replaceable S tid x.sid x.offset m) (hne : m[(0 : UInt8)]? ≠ some u) :
    (x.add S tid m).store.read (.uidIdMapping tid u) = x.store.read (.uidIdMapping tid u) := by
  rw [Tip.add, read_docWrites_uid hlocated hold, if_neg hne]

theorem Tip.read_at_of_ne {x : Tip} {m : Fields} {s o : UInt64} {k : Key}
    (hplaced : Placed S tid x.sid x.offset) (hold : Replaceable S tid x.sid x.offset m)
    (hne : m[(0 : UInt8)]? ≠ some u) (hu : S.read (.uidIdMapping tid u) = some (addr s o))
    (hk : k.location = some (tid, s, o)) : (x.add S tid m).store.read k = x.store.read k := by
  obtain ⟨hto, hfrom⟩ := hplaced.placement_ne hne hu
  exact read_docWrites_at hplaced.located hold _ hk hto hfrom

/-- Nor does a batch without the uid touch it. -/
theorem Adds.batch_of_ne {ms : List Fields} {x y : Tip} {k : Nat}
    (hrun : Adds (fun _ => S) tid x ms y) (hx : Within S tid sid₀ off₀ x (ms.length + k))
    (hne : ∀ e ∈ ms, e[(0 : UInt8)]? ≠ some u) :
    y.store.read (.uidIdMapping tid u) = x.store.read (.uidIdMapping tid u) ∧
      ∀ s o, S.read (.uidIdMapping tid u) = some (addr s o) →
        ∀ k : Key, k.location = some (tid, s, o) → y.store.read k = x.store.read k := by
  refine (Adds.inv (W := Within S tid sid₀ off₀) (I := fun y =>
      y.store.read (.uidIdMapping tid u) = x.store.read (.uidIdMapping tid u) ∧
        ∀ s o, S.read (.uidIdMapping tid u) = some (addr s o) →
          ∀ k : Key, k.location = some (tid, s, o) → y.store.read k = x.store.read k)
    (fun _ _ _ => Within.batch) ?_ hrun hx ⟨rfl, fun _ _ _ _ _ => rfl⟩).2
  rintro z m k hm hz hold ⟨huid, hat⟩
  refine ⟨(Tip.read_uid_of_ne hz.start.located hold (hne m hm)).trans huid, fun s o hu key hk => ?_⟩
  exact (Tip.read_at_of_ne hz.start hold (hne m hm) hu hk).trans (hat s o hu key hk)

end Others

/-! ## When the lookups agree -/

/-- A document is found in two stores alike. -/
structure SameLookup (S S' : Store) (tid : UInt64) (x : Tip) (m : Fields) : Prop where
  record : uidRecord S' tid m[(0 : UInt8)]? = uidRecord S tid m[(0 : UInt8)]?
  values : ∀ s o, uidRecord S tid m[(0 : UInt8)]? = some (addr s o) → s ≠ x.sid →
    ∀ f ∈ m, S'.read (.fieldValue tid s o f) = S.read (.fieldValue tid s o f)

namespace SameLookup

variable {S S' : Store} {tid : UInt64} {x : Tip} {m : Fields}

theorem placement_eq (h : SameLookup S S' tid x m) :
    placement S' tid x.sid x.offset m[(0 : UInt8)]? =
      placement S tid x.sid x.offset m[(0 : UInt8)]? := by
  rw [placement, placement, h.record]

theorem old_values (h : SameLookup S S' tid x m) (hlocated : Located S tid) {s o : UInt64}
    (hold : (placement S tid x.sid x.offset m[(0 : UInt8)]?).old = some (s, o)) {f : UInt8}
    (hf : f ∈ m) : S'.read (.fieldValue tid s o f) = S.read (.fieldValue tid s o f) :=
  h.values s o (placement_old hlocated hold) (placement_old_ne hlocated hold) f hf

/-- The two make the same of it. -/
theorem add_eq (h : SameLookup S S' tid x m) (hlocated : Located S tid) :
    x.add S' tid m = x.add S tid m := by
  have hfields : m.toList.flatMap (fieldWrites S' tid x.sid
        (placement S tid x.sid x.offset m[(0 : UInt8)]?)) =
      m.toList.flatMap (fieldWrites S tid x.sid
        (placement S tid x.sid x.offset m[(0 : UInt8)]?)) := by
    refine List.flatMap_congr fun f hf => ?_
    have hmem : f.1 ∈ m :=
      mem_iff_exists.mpr ⟨f.2, ExtTreeMap.mem_toList_iff_getElem?_eq_some.mp hf⟩
    rw [fieldWrites, fieldWrites]
    congr 1
    cases hold : (placement S tid x.sid x.offset m[(0 : UInt8)]?).old with
    | none => rfl
    | some loc =>
      obtain ⟨s, o⟩ := loc
      rw [fieldDeletes, fieldDeletes, h.old_values hlocated hold hmem]
  rw [Tip.add, Tip.add, Tip.place, Tip.place, docWrites, docWrites, h.placement_eq, hfields]

theorem replaceable (h : SameLookup S S' tid x m) (hlocated : Located S tid)
    (hold : Replaceable S tid x.sid x.offset m) : Replaceable S' tid x.sid x.offset m := by
  intro fid hfid s o hso
  rw [h.placement_eq] at hso
  rw [h.old_values hlocated hso hfid]
  exact hold fid hfid s o hso

end SameLookup

/-- **The condition**: whenever a uid comes a second time in a batch, the document before it has
stayed where it was, and if the second one does not, it has not changed a value.

`S` is the store before the call, in which `AddDocs` looks up all uids. A document stays where it
was if its uid is found there in the segment that the batch begins in, and that is not full yet.
Only then does the loop find what the batch finds. And where the second one is moved by both, the
loop deletes the index records of what the first one has put there, while the batch deletes those of
what was there before. -/
def Independent (S : Store) (tid sid offset : UInt64) (ms : List Fields) : Prop :=
  ∀ before m between m' after uid, ms = before ++ m :: (between ++ m' :: after) →
    m[(0 : UInt8)]? = some uid → m'[(0 : UInt8)]? = some uid →
    (∀ e ∈ between, e[(0 : UInt8)]? ≠ some uid) →
    inPlace S tid sid offset before m = true ∧
      (inPlace S tid sid offset (before ++ m :: between) m' = false →
        ∀ o, S.read (.uidIdMapping tid uid) = some (addr sid o) → SameValues S tid sid o m)

/-- The last element with a property. -/
theorem exists_last {α : Type} {P : α → Prop} [DecidablePred P] {l : List α} (h : ∃ a ∈ l, P a) :
    ∃ l₁ a l₂, l = l₁ ++ a :: l₂ ∧ P a ∧ ∀ b ∈ l₂, ¬P b := by
  induction l with
  | nil =>
    obtain ⟨a, ha, -⟩ := h
    cases ha
  | cons b l ih =>
    by_cases hl : ∃ a ∈ l, P a
    · obtain ⟨l₁, a, l₂, rfl, ha, hl₂⟩ := ih hl
      exact ⟨b :: l₁, a, l₂, rfl, ha, hl₂⟩
    · obtain ⟨a, ha, hP⟩ := h
      rcases List.mem_cons.mp ha with rfl | ha
      · exact ⟨[], a, l, rfl, hP, fun c hc hPc => hl ⟨c, hc, hPc⟩⟩
      · exact absurd ⟨a, ha, hP⟩ hl

section Sufficient

variable {S : Store} {tid sid₀ off₀ : UInt64} {ms : List Fields}

/-- Where the condition holds, a batch looks up what a loop does. -/
theorem Independent.sameLookup (hind : Independent S tid sid₀ off₀ ms)
    (hids : ∀ m ∈ ms, ∀ m' ∈ ms, ∀ f, f ∈ m → f ∈ m') {before after : List Fields} {m : Fields}
    (hms : ms = before ++ m :: after) {x : Tip} {k : Nat}
    (hstart : Within S tid sid₀ off₀ ⟨S, sid₀, off₀⟩ (before.length + k))
    (hrun : Adds (fun _ => S) tid ⟨S, sid₀, off₀⟩ before x)
    (hold : Replaceable S tid x.sid x.offset m) : SameLookup S x.store tid x m := by
  cases huid : m[(0 : UInt8)]? with
  | none =>
    refine ⟨by rw [huid]; rfl, fun s o hrecord => ?_⟩
    rw [huid] at hrecord
    cases hrecord
  | some u =>
    have hrec : ∀ T : Store, uidRecord T tid m[(0 : UInt8)]? = T.read (.uidIdMapping tid u) := by
      intro T
      rw [huid]
      rfl
    by_cases hearlier : ∃ e ∈ before, e[(0 : UInt8)]? = some u
    · -- The uid came before: that document is where it was in `S`.
      obtain ⟨b₁, mj, b₂, rfl, hmj, hb₂⟩ := exists_last hearlier
      obtain ⟨z, hb₁, hmid⟩ := Adds.append.mp hrun
      obtain ⟨hreplj, hrest⟩ := hmid
      rw [List.length_append, List.length_cons] at hstart
      have hstart₁ : Within S tid sid₀ off₀ ⟨S, sid₀, off₀⟩ (b₁.length + ((b₂.length + k) + 1)) := by
        convert hstart using 1
        omega
      obtain ⟨hz, -⟩ := hb₁.batch_le hstart₁
      have hz' := hz.batch hreplj
      have hlocated := hz.start.located
      obtain ⟨hin, hvalues⟩ := hind b₁ mj b₂ m after u
        (by rw [hms, List.append_assoc, List.cons_append]) hmj huid hb₂
      rw [inPlace_iff hstart₁ hb₁, Tip.place, placement_hasNew_false hlocated, hmj] at hin
      obtain ⟨o, hrecord, hplace⟩ := hin
      have hS : S.read (.uidIdMapping tid u) = some (addr z.sid o) := hrecord
      have hzsid : z.sid = sid₀ := UInt64.le_antisymm (hz.ahead.start.segment_le hS) hz.segment_le
      obtain ⟨huid', hat⟩ := hrest.batch_of_ne hz' hb₂
      refine ⟨?_, fun s o' hso hs f hf => ?_⟩
      · rw [hrec, hrec, huid', Tip.add, read_docWrites_uid hlocated hreplj, hmj, if_pos rfl, hplace, hS]
      · rw [hrec, hS, Option.some_inj, addr_inj] at hso
        obtain ⟨rfl, rfl⟩ := hso
        have hmove : (placement S tid x.sid x.offset m[(0 : UInt8)]?).old = some (z.sid, o) := by
          rw [placement_move ((hrec S).trans hS) hs]
        have hnot : inPlace S tid sid₀ off₀ (b₁ ++ mj :: b₂) m = false := by
          rw [← Bool.not_eq_true, inPlace_iff (k := k) (by
            rw [List.length_append, List.length_cons]; exact hstart) hrun, Bool.not_eq_false,
            Tip.place, placement_move ((hrec S).trans hS) hs]
        obtain ⟨w, hw⟩ := hold f hf z.sid o hmove
        have hfj : f ∈ mj := hids m (by simp [hms]) mj (by simp [hms]) f hf
        obtain ⟨v, hv⟩ := mem_iff_exists.mp hfj
        have hsame := hvalues hnot o (hzsid ▸ hS) f v w hv (hzsid ▸ hw)
        rw [hat z.sid o hS _ rfl, Tip.add, read_docWrites_value hlocated hreplj, hmj, hplace,
          if_pos ⟨hfj, rfl, rfl⟩, hv, hw, hsame]
    · have hne : ∀ e ∈ before, e[(0 : UInt8)]? ≠ some u := fun e he heq => hearlier ⟨e, he, heq⟩
      obtain ⟨huid', hat⟩ := hrun.batch_of_ne hstart hne
      refine ⟨by rw [hrec, hrec, huid'], fun s o hso _ f _ => ?_⟩
      rw [hrec] at hso
      exact hat s o hso _ rfl

/-- **The condition is enough.** -/
theorem Independent.loop (hind : Independent S tid sid₀ off₀ ms)
    (hids : ∀ m ∈ ms, ∀ m' ∈ ms, ∀ f, f ∈ m → f ∈ m')
    (hstart : Within S tid sid₀ off₀ ⟨S, sid₀, off₀⟩ ms.length) :
    ∀ {before after : List Fields} {x : Tip}, ms = before ++ after →
      Adds (fun _ => S) tid ⟨S, sid₀, off₀⟩ before x →
      Adds Tip.store tid ⟨S, sid₀, off₀⟩ before x := by
  intro before
  induction before using List.reverseRecOn with
  | nil => exact fun _ h => h
  | append_singleton before m ih =>
    intro after y hms hrun
    obtain ⟨x, hbefore, hold, rfl⟩ := Adds.concat.mp hrun
    rw [List.append_assoc, List.singleton_append] at hms
    have hroom : Within S tid sid₀ off₀ ⟨S, sid₀, off₀⟩ (before.length + (after.length + 1)) := by
      rw [hms, List.length_append, List.length_cons] at hstart
      exact hstart
    have hsame := hind.sameLookup hids hms hroom hbefore hold
    obtain ⟨hx, -⟩ := hbefore.batch_le hroom
    have hlocated := hx.start.located
    exact Adds.concat.mpr ⟨x, ih hms hbefore, hsame.replaceable hlocated hold,
      (hsame.add_eq hlocated).symm⟩

end Sufficient

/-! ## What a loop does -/

theorem slot_segment_le {s o s' o' : UInt64} (ho : o < segmentSize) (ho' : o' < segmentSize)
    (h : slot (s, o) ≤ slot (s', o')) : s ≤ s' := by
  by_contra hlt
  exact absurd h (Nat.not_le.mpr ((slot_lt_iff ho' ho).mpr (.inl (UInt64.not_le.mp hlt))))

/-- A tip of a loop. Documents that were there are there, and those of the first segment are where
they were as long as the loop is in it. -/
structure Looped (S : Store) (tid sid₀ off₀ : UInt64) (x : Tip) (k : Nat) : Prop
    extends Within S tid sid₀ off₀ x k where
  known : ∀ u, (S.read (.uidIdMapping tid u)).isSome = true →
    (x.store.read (.uidIdMapping tid u)).isSome = true
  stays : x.sid = sid₀ → ∀ u o, S.read (.uidIdMapping tid u) = some (addr sid₀ o) →
    x.store.read (.uidIdMapping tid u) = some (addr sid₀ o)

section Loop

variable {S : Store} {tid sid₀ off₀ : UInt64}

theorem Looped.start {k : Nat} (h : Within S tid sid₀ off₀ ⟨S, sid₀, off₀⟩ k) :
    Looped S tid sid₀ off₀ ⟨S, sid₀, off₀⟩ k := ⟨h, fun _ h => h, fun _ _ _ h => h⟩

theorem Looped.add {x : Tip} {k : Nat} {m : Fields} (h : Looped S tid sid₀ off₀ x (k + 1))
    (hold : Replaceable x.store tid x.sid x.offset m) :
    Looped S tid sid₀ off₀ (x.add x.store tid m) k := by
  have hlocated := h.ahead.placed.located
  have hread := read_docWrites_uid hlocated hold x.store
  have hnext := h.loop hold
  refine ⟨hnext, fun u hu => ?_, fun hsid u o hu => ?_⟩
  · rw [Tip.add, hread]
    split
    · rfl
    · exact h.known u hu
  · have hslot : x.slot ≤ (x.add x.store tid m).slot := by
      rw [h.slot_add]
      exact Nat.le_add_right _ _
    have hle := slot_segment_le h.ahead.placed.offset_lt hnext.ahead.placed.offset_lt hslot
    have hx : x.sid = sid₀ := UInt64.le_antisymm (hsid ▸ hle) h.segment_le
    have hold' := h.stays hx u o hu
    rw [Tip.add, hread]
    split
    · rename_i huid
      rw [placement_inPlace (o := o) (by rw [huid, hx]; exact hold'), hx]
    · exact hold'

theorem Adds.loop_le {ms : List Fields} {x y : Tip} {k : Nat} (hrun : Adds Tip.store tid x ms y)
    (hx : Looped S tid sid₀ off₀ x (ms.length + k)) : Looped S tid sid₀ off₀ y k :=
  (Adds.inv (W := Looped S tid sid₀ off₀) (I := fun _ => True) (fun _ _ _ => Looped.add)
    (fun _ _ _ _ _ _ _ => trivial) hrun hx trivial).1

/-- A loop without the uid leaves its document alone. -/
theorem Adds.loop_of_ne {ms : List Fields} {x y : Tip} {k : Nat} {u : Bytes} {s o : UInt64}
    (hrun : Adds Tip.store tid x ms y) (hx : Looped S tid sid₀ off₀ x (ms.length + k))
    (hne : ∀ e ∈ ms, e[(0 : UInt8)]? ≠ some u)
    (hu : x.store.read (.uidIdMapping tid u) = some (addr s o)) :
    y.store.read (.uidIdMapping tid u) = some (addr s o) ∧
      ∀ k : Key, k.location = some (tid, s, o) → y.store.read k = x.store.read k := by
  refine (Adds.inv (W := Looped S tid sid₀ off₀) (I := fun y =>
      y.store.read (.uidIdMapping tid u) = some (addr s o) ∧
        ∀ k : Key, k.location = some (tid, s, o) → y.store.read k = x.store.read k)
    (fun _ _ _ => Looped.add) ?_ hrun hx ⟨hu, fun _ _ => rfl⟩).2
  rintro z m k hm hz hold ⟨huid, hat⟩
  have hplaced := hz.ahead.placed
  refine ⟨(Tip.read_uid_of_ne hplaced.located hold (hne m hm)).trans huid, fun key hk => ?_⟩
  exact (Tip.read_at_of_ne hplaced hold (hne m hm) huid hk).trans (hat key hk)

/-- A location that no document is at any more. -/
structure Dead (tid : UInt64) (x : Tip) (s o : UInt64) : Prop where
  free : ∀ u, x.store.read (.uidIdMapping tid u) ≠ some (addr s o)
  lt : slot (s, o) < x.slot

/-- A document that moves leaves nothing behind. -/
theorem Tip.add_move {x : Tip} {m : Fields} {u : Bytes} {s o : UInt64}
    (hplaced : Placed x.store tid x.sid x.offset) (hold : Replaceable x.store tid x.sid x.offset m)
    (hslot : x.slot ≤ (x.add x.store tid m).slot) (huid : m[(0 : UInt8)]? = some u)
    (hu : x.store.read (.uidIdMapping tid u) = some (addr s o)) (hs : s ≠ x.sid) :
    Dead tid (x.add x.store tid m) s o ∧
      ∀ f ∈ m, (x.add x.store tid m).store.read (.fieldValue tid s o f) = none ∧
        ∀ v, x.store.read (.fieldValue tid s o f) = some v →
          (x.add x.store tid m).store.read (.fieldIndex tid f v s o) = none := by
  have hlocated := hplaced.located
  have hmove : placement x.store tid x.sid x.offset m[(0 : UInt8)]? = ⟨x.offset, true, some (s, o)⟩ :=
    placement_move (by rw [huid]; exact hu) hs
  have hread := read_docWrites hlocated hold x.store
  rw [hmove] at hread
  refine ⟨⟨fun u' hu' => ?_, Nat.lt_of_lt_of_le (hplaced.lt hu).2 hslot⟩, fun f hf => ⟨?_, fun v hv => ?_⟩⟩
  · rw [Tip.add, read_docWrites_uid hlocated hold, hmove] at hu'
    split at hu'
    · exact hs (addr_inj.mp (Option.some_inj.mp hu')).1.symm
    · rename_i hne
      exact hne (huid.trans (congrArg some (hplaced.inj u u' _ hu hu')))
  · rw [Tip.add, read_docWrites_value hlocated hold, hmove, if_neg (fun hc => hs hc.2.1),
      if_pos ⟨hf, rfl⟩]
  · rw [Tip.add, hread]
    rw [ExtTreeMap.mem_iff_isSome_getElem?] at hf
    simp [docEffect, fieldsEffect, hs, hf, oldValues, hv]

/-- Nothing comes back there. -/
theorem Adds.loop_dead {ms : List Fields} {x y : Tip} {k : Nat} {s o : UInt64}
    (hrun : Adds Tip.store tid x ms y) (hx : Looped S tid sid₀ off₀ x (ms.length + k))
    (hdead : Dead tid x s o) :
    ∀ k : Key, k.location = some (tid, s, o) → y.store.read k = x.store.read k := by
  refine (Adds.inv (W := Looped S tid sid₀ off₀) (I := fun y => Dead tid y s o ∧
      ∀ k : Key, k.location = some (tid, s, o) → y.store.read k = x.store.read k)
    (fun _ _ _ => Looped.add) ?_ hrun hx ⟨hdead, fun _ _ => rfl⟩).2.2
  rintro z m k hm hz hold ⟨hfree, hat⟩
  have hlocated := hz.ahead.placed.located
  -- A document goes to the cursor or stays at its own location, and it leaves its own.
  have hto : ¬(s = z.sid ∧ o = (placement z.store tid z.sid z.offset m[(0 : UInt8)]?).offsetUsed) := by
    rintro ⟨rfl, ho⟩
    rcases placement_cases z.sid z.offset m[(0 : UInt8)]? hlocated with
      ⟨-, hp⟩ | ⟨o', hin, hp⟩ | ⟨s', o', -, -, hp⟩ <;> rw [hp] at ho
    · exact absurd hfree.lt (ho ▸ Nat.lt_irrefl _)
    · obtain ⟨u, -, hu⟩ := Option.bind_eq_some_iff.mp hin
      exact hfree.free u (ho ▸ hu)
    · exact absurd hfree.lt (ho ▸ Nat.lt_irrefl _)
  have hfrom : (placement z.store tid z.sid z.offset m[(0 : UInt8)]?).old ≠ some (s, o) := by
    intro hmove
    obtain ⟨u, -, hu⟩ := Option.bind_eq_some_iff.mp (placement_old hlocated hmove)
    exact hfree.free u hu
  refine ⟨⟨fun u hu => ?_, ?_⟩, fun key hk => ?_⟩
  · rw [Tip.add, read_docWrites_uid hlocated hold] at hu
    split at hu
    · obtain ⟨h₁, h₂⟩ := addr_inj.mp (Option.some_inj.mp hu)
      exact hto ⟨h₁.symm, h₂.symm⟩
    · exact hfree.free u hu
  · rw [hz.slot_add]
    exact Nat.lt_of_lt_of_le hfree.lt (Nat.le_add_right _ _)
  · exact (read_docWrites_at hlocated hold _ hk hto hfrom).trans (hat key hk)

end Loop

/-! ## A batch and a loop side by side -/

section SideBySide

variable {S : Store} {tid sid₀ off₀ : UInt64}

/-- Where a batch does not move the cursor, a loop that is not ahead of it does not either. -/
theorem Looped.hasNew_false {x y : Tip} {k : Nat} {m : Fields} (hy : Within S tid sid₀ off₀ y k)
    (hx : Looped S tid sid₀ off₀ x k) (hle : x.slot ≤ y.slot)
    (hnew : (y.place S tid m).hasNew = false) : (x.place x.store tid m).hasNew = false := by
  rw [Tip.place, placement_hasNew_false hy.start.located] at hnew
  obtain ⟨o, hrecord, -⟩ := hnew
  obtain ⟨u, huid, hu⟩ := Option.bind_eq_some_iff.mp hrecord
  have hysid := UInt64.le_antisymm (hy.ahead.start.segment_le hu) hy.segment_le
  have hxsid : x.sid = sid₀ := UInt64.le_antisymm
    (hysid ▸ slot_segment_le hx.ahead.placed.offset_lt hy.ahead.placed.offset_lt hle) hx.segment_le
  have hstay := hx.stays hxsid u o (hysid ▸ hu)
  rw [Tip.place, placement_inPlace (o := o) (by rw [huid, hxsid]; exact hstay)]

/-- **A batch moves the cursor at least as far as a loop**, and the gap does not close. -/
theorem Adds.dominates : ∀ {ms : List Fields} {x x' y y' : Tip} {k : Nat},
    Adds Tip.store tid x ms x' → Adds (fun _ => S) tid y ms y' →
    Looped S tid sid₀ off₀ x (ms.length + k) → Within S tid sid₀ off₀ y (ms.length + k) →
    x.slot ≤ y.slot → y.slot + x'.slot ≤ y'.slot + x.slot := by
  intro ms
  induction ms with
  | nil =>
    intro x x' y y' k hloop hbatch _ _ _
    cases hloop
    cases hbatch
    exact Nat.le_refl _
  | cons m ms ih =>
    intro x x' y y' k ⟨hold, hloop⟩ hbatch hx hy hle
    have hbatch : Replaceable S tid y.sid y.offset m ∧
      Adds (fun _ => S) tid (y.add S tid m) ms y' := hbatch
    obtain ⟨hold', hbatch⟩ := hbatch
    rw [List.length_cons, Nat.add_right_comm] at hx hy
    have hslot := hx.slot_add (m := m) x.store
    have hslot' := hy.slot_add (m := m) S
    have hstay := hx.hasNew_false (m := m) hy hle
    have hstep : y.slot + (x.add x.store tid m).slot ≤ (y.add S tid m).slot + x.slot := by
      rw [hslot, hslot']
      cases hnew : (y.place S tid m).hasNew with
      | true =>
        rw [if_pos rfl]
        split <;> omega
      | false =>
        rw [hstay hnew]
        simp only [Bool.false_eq_true, if_false]
        omega
    have := ih hloop hbatch (hx.add hold) (hy.batch hold') (by omega)
    omega

/-- A batch and a loop that end with the same cursor have it together all the way. -/
theorem Adds.same_cursor {as bs : List Fields} {x x' y y' : Tip} {k : Nat}
    (hstart : Within S tid sid₀ off₀ ⟨S, sid₀, off₀⟩ (as.length + (bs.length + k)))
    (hloop : Adds Tip.store tid ⟨S, sid₀, off₀⟩ as x) (hloop' : Adds Tip.store tid x bs x')
    (hbatch : Adds (fun _ => S) tid ⟨S, sid₀, off₀⟩ as y)
    (hbatch' : Adds (fun _ => S) tid y bs y') (hend : x'.slot = y'.slot) :
    x.slot = y.slot ∧ x.sid = y.sid ∧ x.offset = y.offset := by
  have hx := hloop.loop_le (Looped.start hstart)
  obtain ⟨hy, -⟩ := hbatch.batch_le hstart
  have hfirst := hloop.dominates hbatch (Looped.start hstart) hstart (Nat.le_refl _)
  have hrest := hloop'.dominates hbatch' hx hy (by omega)
  have hslot : x.slot = y.slot := by omega
  exact ⟨hslot, slot_inj hx.ahead.placed.offset_lt hy.ahead.placed.offset_lt hslot⟩

/-- So they move it on together. -/
theorem Adds.same_hasNew {before after : List Fields} {m : Fields} {x x' y y' : Tip} {k : Nat}
    (hstart : Within S tid sid₀ off₀ ⟨S, sid₀, off₀⟩ (before.length + (after.length + k + 1)))
    (hloop : Adds Tip.store tid ⟨S, sid₀, off₀⟩ before x) (hloop' : Adds Tip.store tid x (m :: after) x')
    (hbatch : Adds (fun _ => S) tid ⟨S, sid₀, off₀⟩ before y)
    (hbatch' : Adds (fun _ => S) tid y (m :: after) y') (hend : x'.slot = y'.slot) :
    (x.place x.store tid m).hasNew = (y.place S tid m).hasNew := by
  have hstart₁ : Within S tid sid₀ off₀ ⟨S, sid₀, off₀⟩
      (before.length + ((m :: after).length + k)) := by
    convert hstart using 2
    rw [List.length_cons]
    omega
  have hstart₂ : Within S tid sid₀ off₀ ⟨S, sid₀, off₀⟩
      ((before ++ [m]).length + (after.length + k)) := by
    convert hstart using 1
    rw [List.length_append, List.length_singleton]
    omega
  obtain ⟨hslot, -⟩ := Adds.same_cursor hstart₁ hloop hloop' hbatch hbatch' hend
  obtain ⟨hslot', -⟩ := Adds.same_cursor hstart₂
    (Adds.concat.mpr ⟨x, hloop, hloop'.1, rfl⟩) hloop'.2
    (Adds.concat.mpr ⟨y, hbatch, hbatch'.1, rfl⟩) hbatch'.2 hend
  have hx := (hloop.loop_le (Looped.start hstart)).slot_add (m := m) x.store
  have hy := (hbatch.batch_le hstart).1.slot_add (m := m) S
  cases hnew : (x.place x.store tid m).hasNew <;> cases hnew' : (y.place S tid m).hasNew <;>
    simp only [hnew, hnew', if_true, Bool.false_eq_true, if_false] at hx hy ⊢ <;> omega

/-- An index record a batch has written stays, unless it is one the batch finds in `S`. -/
theorem Adds.batch_index {ms : List Fields} {x y : Tip} {k : Nat} {f : UInt8} {v : Bytes}
    {s o : UInt64} (hrun : Adds (fun _ => S) tid x ms y)
    (hx : Within S tid sid₀ off₀ x (ms.length + k))
    (hdiff : ∀ u, S.read (.uidIdMapping tid u) = some (addr s o) →
      S.read (.fieldValue tid s o f) ≠ some v)
    (hindex : (x.store.read (.fieldIndex tid f v s o)).isSome = true) :
    (y.store.read (.fieldIndex tid f v s o)).isSome = true := by
  refine (Adds.inv (W := Within S tid sid₀ off₀)
    (I := fun y => (y.store.read (.fieldIndex tid f v s o)).isSome = true)
    (fun _ _ _ => Within.batch) (fun z m k _ hz hold hz' => ?_) hrun hx hindex).2
  have hlocated := hz.start.located
  rw [Tip.add, read_docWrites hlocated hold]
  simp only [docEffect, fieldsEffect]
  split
  · rfl
  · split
    · rename_i hdelete
      obtain ⟨u, -, hu⟩ := Option.bind_eq_some_iff.mp (placement_old hlocated hdelete.2.2.1)
      have hvalue := hdelete.2.2.2
      rw [oldValues, hdelete.2.2.1] at hvalue
      exact absurd hvalue (hdiff u hu)
    · exact hz'

/-- A batch and a loop that end alike, when they come to a document. -/
structure Stage (S : Store) (tid sid₀ off₀ : UInt64) (before : List Fields) (m : Fields)
    (after : List Fields) (x x' y y' : Tip) : Prop where
  loop : Adds Tip.store tid ⟨S, sid₀, off₀⟩ before x
  loopOld : Replaceable x.store tid x.sid x.offset m
  loopRest : Adds Tip.store tid (x.add x.store tid m) after x'
  batch : Adds (fun _ => S) tid ⟨S, sid₀, off₀⟩ before y
  batchOld : Replaceable S tid y.sid y.offset m
  batchRest : Adds (fun _ => S) tid (y.add S tid m) after y'
  looped : Looped S tid sid₀ off₀ x (after.length + 1)
  within : Within S tid sid₀ off₀ y (after.length + 1)
  sid : x.sid = y.sid
  offset : x.offset = y.offset
  hasNew : (x.place x.store tid m).hasNew = (y.place S tid m).hasNew
  inPlace : inPlace S tid sid₀ off₀ before m = true ↔ (y.place S tid m).hasNew = false

theorem Adds.exists_stage {before after : List Fields} {m : Fields} {x y : Tip}
    (hstart : Within S tid sid₀ off₀ ⟨S, sid₀, off₀⟩ (before ++ m :: after).length)
    (hloop : Adds Tip.store tid ⟨S, sid₀, off₀⟩ (before ++ m :: after) x)
    (hbatch : Adds (fun _ => S) tid ⟨S, sid₀, off₀⟩ (before ++ m :: after) y)
    (hend : x.slot = y.slot) : ∃ x₁ y₁, Stage S tid sid₀ off₀ before m after x₁ x y₁ y := by
  rw [List.length_append, List.length_cons] at hstart
  obtain ⟨x₁, hloop₁, hloop₂⟩ := Adds.append.mp hloop
  obtain ⟨y₁, hbatch₁, hbatch₂⟩ := Adds.append.mp hbatch
  obtain ⟨-, hsid, hoffset⟩ := Adds.same_cursor (k := 0)
    (show Within S tid sid₀ off₀ _ (before.length + ((m :: after).length + 0)) from hstart)
    hloop₁ hloop₂ hbatch₁ hbatch₂ hend
  have hnew := Adds.same_hasNew (k := 0) hstart hloop₁ hloop₂ hbatch₁ hbatch₂ hend
  exact ⟨x₁, y₁, hloop₁, hloop₂.1, hloop₂.2, hbatch₁, hbatch₂.1, hbatch₂.2,
    hloop₁.loop_le (Looped.start hstart), (hbatch₁.batch_le hstart).1, hsid, hoffset, hnew,
    inPlace_iff hstart hbatch₁⟩

theorem Stage.between {before between after : List Fields} {m m' : Fields} {x x₁ x₂ y y₁ y₂ : Tip}
    (h₁ : Stage S tid sid₀ off₀ before m (between ++ m' :: after) x₁ x y₁ y)
    (h₂ : Stage S tid sid₀ off₀ (before ++ m :: between) m' after x₂ x y₂ y) :
    Adds Tip.store tid (x₁.add x₁.store tid m) between x₂ := by
  obtain ⟨x₁', hfirst, hrest⟩ := Adds.append.mp h₂.loop
  cases hfirst.unique h₁.loop
  exact hrest.2

/-- The loop finds a document where it was written. -/
theorem Stage.found {before between after : List Fields} {m m' : Fields}
    {x x₁ x₂ y y₁ y₂ : Tip} {uid : Bytes} {o : UInt64}
    (h₁ : Stage S tid sid₀ off₀ before m (between ++ m' :: after) x₁ x y₁ y)
    (h₂ : Stage S tid sid₀ off₀ (before ++ m :: between) m' after x₂ x y₂ y)
    (hfirst : m[(0 : UInt8)]? = some uid) (hbetween : ∀ e ∈ between, e[(0 : UInt8)]? ≠ some uid)
    (hloop : (x₁.place x₁.store tid m).offsetUsed = o) :
    x₂.store.read (.uidIdMapping tid uid) = some (addr x₁.sid o) ∧
      ∀ f v, m[f]? = some v → x₂.store.read (.fieldValue tid x₁.sid o f) = some v := by
  have hlocated := h₁.looped.ahead.placed.located
  have hused : (placement x₁.store tid x₁.sid x₁.offset m[(0 : UInt8)]?).offsetUsed = o := hloop
  have huid : (x₁.add x₁.store tid m).store.read (.uidIdMapping tid uid) = some (addr x₁.sid o) := by
    rw [Tip.add, read_docWrites_uid hlocated h₁.loopOld, if_pos hfirst, hused]
  have hroom : Looped S tid sid₀ off₀ (x₁.add x₁.store tid m)
      (between.length + (after.length + 1)) := by
    have := h₁.looped.add h₁.loopOld
    rwa [List.length_append, List.length_cons] at this
  obtain ⟨hthere, hat⟩ := (h₁.between h₂).loop_of_ne hroom hbetween huid
  refine ⟨hthere, fun f v hv => ?_⟩
  rw [hat _ rfl, Tip.add, read_docWrites_value hlocated h₁.loopOld,
    if_pos ⟨mem_iff_exists.mpr ⟨v, hv⟩, rfl, hused.symm⟩, hv]

/-- **The core of it.** Where both write a document to a location, and the loop then moves it, the
loop has deleted an index record that the batch does not know of. -/
theorem Stage.not_moved {before between after : List Fields} {m m' : Fields}
    {x x₁ x₂ y y₁ y₂ : Tip} {uid v : Bytes} {f : UInt8} {o : UInt64}
    (h₁ : Stage S tid sid₀ off₀ before m (between ++ m' :: after) x₁ x y₁ y)
    (h₂ : Stage S tid sid₀ off₀ (before ++ m :: between) m' after x₂ x y₂ y)
    (hsame : x.store = y.store) (hfirst : m[(0 : UInt8)]? = some uid)
    (hsecond : m'[(0 : UInt8)]? = some uid) (hbetween : ∀ e ∈ between, e[(0 : UInt8)]? ≠ some uid)
    (hfield : m[f]? = some v) (hfield' : f ∈ m')
    (hloop : (x₁.place x₁.store tid m).offsetUsed = o) (hbatch : (y₁.place S tid m).offsetUsed = o)
    (hdiff : ∀ u, S.read (.uidIdMapping tid u) = some (addr x₁.sid o) →
      S.read (.fieldValue tid x₁.sid o f) ≠ some v) (hmove : x₁.sid ≠ x₂.sid) : False := by
  -- In the batch the record is written and stays.
  have hindex : ((y₁.add S tid m).store.read (.fieldIndex tid f v x₁.sid o)).isSome = true := by
    have hused : (placement S tid y₁.sid y₁.offset m[(0 : UInt8)]?).offsetUsed = o := hbatch
    rw [Tip.add, read_docWrites h₁.within.start.located h₁.batchOld]
    simp [docEffect, fieldsEffect, hfield, hused, h₁.sid]
  have hstays := h₁.batchRest.batch_index (k := 0) (h₁.within.batch h₁.batchOld) hdiff hindex
  -- In the loop the document is found where it was written, and the record is deleted.
  obtain ⟨hthere, hvalues⟩ := h₁.found h₂ hfirst hbetween hloop
  obtain ⟨hdead, hgone⟩ := Tip.add_move h₂.looped.ahead.placed h₂.loopOld (by
    rw [h₂.looped.slot_add]
    exact Nat.le_add_right _ _) hsecond hthere hmove
  obtain ⟨-, hnone⟩ := hgone f hfield'
  have hnone := hnone v (hvalues f v hfield)
  have hlast := h₂.loopRest.loop_dead (k := 0) (h₂.looped.add h₂.loopOld) hdead
    (.fieldIndex tid f v x₁.sid o) rfl
  rw [← hsame, hlast, hnone] at hstays
  cases hstays

/-- **The condition is needed.** -/
theorem Independent.of_same {ms : List Fields} {x y : Tip}
    (hids : ∀ m ∈ ms, ∀ m' ∈ ms, ∀ f, f ∈ m → f ∈ m')
    (hstart : Within S tid sid₀ off₀ ⟨S, sid₀, off₀⟩ ms.length)
    (hloop : Adds Tip.store tid ⟨S, sid₀, off₀⟩ ms x)
    (hbatch : Adds (fun _ => S) tid ⟨S, sid₀, off₀⟩ ms y) (hsame : x.store = y.store)
    (hslot : x.slot = y.slot) : Independent S tid sid₀ off₀ ms := by
  rintro before m between m' after uid rfl hfirst hsecond hbetween
  have hlist : before ++ m :: (between ++ m' :: after) = (before ++ m :: between) ++ m' :: after := by
    simp
  obtain ⟨x₁, y₁, h₁⟩ := Adds.exists_stage hstart hloop hbatch hslot
  rw [hlist] at hstart hloop hbatch
  obtain ⟨x₂, y₂, h₂⟩ := Adds.exists_stage hstart hloop hbatch hslot
  have hfields : ∀ f, f ∈ m → f ∈ m' := hids m (by simp) m' (by simp)
  have hlocated := h₁.within.start.located
  have hin : inPlace S tid sid₀ off₀ before m = true := by
    rw [h₁.inPlace]
    by_contra hnew
    rw [Bool.not_eq_false] at hnew
    have hnew' := h₁.hasNew.trans hnew
    have hused := placement_hasNew h₁.looped.ahead.placed.located hnew'
    refine h₁.not_moved h₂ hsame hfirst hsecond hbetween hfirst
      (hfields 0 (mem_iff_exists.mpr ⟨uid, hfirst⟩)) hused
      ((placement_hasNew hlocated hnew).trans h₁.offset.symm) (fun u hu => ?_) fun hsid => ?_
    · -- The cursor is not a location of `S`.
      have := (h₁.within.start.lt hu).2
      rw [h₁.sid, h₁.offset] at this
      exact absurd this (Nat.lt_irrefl _)
    · -- The loop would find it in the current segment, where the batch does not.
      obtain ⟨hthere, -⟩ := h₁.found h₂ hfirst hbetween hused
      have hloop₂ : (x₂.place x₂.store tid m').hasNew = false := by
        rw [Tip.place, placement_inPlace (o := x₁.offset) (by rw [hsecond, ← hsid]; exact hthere)]
      rw [h₂.hasNew, place_hasNew_iff hlocated, ← h₂.sid, ← hsid, h₁.sid] at hloop₂
      have hstored : storedIn S tid y₁.sid m = true := by
        rw [storedIn, hsecond] at hloop₂
        rw [storedIn, hfirst]
        exact hloop₂
      rw [← place_hasNew_iff hlocated, hnew] at hstored
      cases hstored
  refine ⟨hin, fun hout o hu f v w hv hw => ?_⟩
  by_contra hne
  have hstored := h₁.inPlace.mp hin
  rw [Tip.place, placement_hasNew_false hlocated, hfirst] at hstored
  obtain ⟨o', hrecord, hplace⟩ := hstored
  obtain ⟨hsid, rfl⟩ := addr_inj.mp (Option.some_inj.mp (hu.symm.trans hrecord))
  have hx₁ : x₁.sid = sid₀ := h₁.sid.trans hsid.symm
  have hfound := h₁.looped.stays hx₁ uid o hu
  refine h₁.not_moved h₂ hsame hfirst hsecond hbetween hv (hfields f (mem_iff_exists.mpr ⟨v, hv⟩))
    (o := o) ?_ ?_ (fun u _ hvalue => ?_) fun hsame₂ => ?_
  · rw [Tip.place, placement_inPlace (o := o) (by rw [hfirst, hx₁]; exact hfound)]
  · rw [Tip.place, hfirst, hplace]
  · rw [hx₁, hw] at hvalue
    exact hne (Option.some_inj.mp hvalue)
  · have hy₂ : y₂.sid = sid₀ := by rw [← h₂.sid, ← hsame₂, hx₁]
    have : (y₂.place S tid m').hasNew = false := by
      rw [Tip.place, placement_inPlace (o := o) (by rw [hsecond, hy₂]; exact hu)]
    rw [← h₂.inPlace, hout] at this
    cases this

end SideBySide

/-! ## `AddDocs` and `AddDoc` -/

/-- A list of documents is serialized to these fields. -/
abbrev Serialized (docs : List Doc) (ms : List Fields) : Prop :=
  List.Forall₂ (fun d m => d.serialize = some m) docs ms

/-- The calls of a loop of `AddDoc`. -/
def loopOps (name : Bytes) (docs : List Doc) : List Op := docs.map fun d => .addDoc name d true

namespace RocksDBImpl

/-- With another store and cursor of a table. -/
def atTip (impl : RocksDBImpl) (tid : UInt64) (x : Tip) : RocksDBImpl where
  db := x.store
  cache := { impl.cache with
    segmap := impl.cache.segmap.insert tid x.sid
    offset := impl.cache.offset.insert tid x.offset }

variable {impl : RocksDBImpl} {name : Bytes} {tid : UInt64} {schema : DocSchema}

theorem insert_insert {m : ExtTreeMap UInt64 UInt64} {k v w : UInt64} :
    (m.insert k v).insert k w = m.insert k w := by
  refine ExtTreeMap.ext_getElem? fun k' => ?_
  rw [getElem?_insert_eq, getElem?_insert_eq, getElem?_insert_eq]
  split <;> rfl

theorem atTip_commit {x : Tip} {c : Cursor} :
    (impl.atTip tid x).commit tid c = impl.atTip tid ⟨x.store.apply c.wb, c.sid, c.offset⟩ := by
  simp only [atTip, commit, insert_insert]

theorem atTip_self {sid offset : UInt64} (ht : Table impl name tid schema sid offset) :
    impl.atTip tid ⟨impl.db, sid, offset⟩ = impl := by
  rw [atTip, insert_eq_self ht.segment, insert_eq_self ht.offset]

theorem table_atTip {sid offset : UInt64} (ht : Table impl name tid schema sid offset) (x : Tip) :
    Table (impl.atTip tid x) name tid schema x.sid x.offset := by
  refine ⟨ht.id, ht.schema, ?_, ?_⟩ <;> simp only [atTip] <;> rw [getElem?_insert_eq, if_pos rfl]

end RocksDBImpl

/-- A batch of documents adds their fields. -/
theorem adds_of_batch {S : Store} {tid : UInt64} (hlocated : Located S tid) {docs : List Doc}
    {ms : List Fields} (hms : Serialized docs ms) : ∀ {c c' : Cursor},
    docs.foldlM (addDocTo S tid) c = some c' →
    Adds (fun _ => S) tid ⟨S.apply c.wb, c.sid, c.offset⟩ ms
      ⟨S.apply c'.wb, c'.sid, c'.offset⟩ := by
  induction hms with
  | nil =>
    intro c c' hrun
    cases hrun
    rfl
  | @cons d m docs ms hd _ ih =>
    intro c c' hrun
    rw [List.foldlM_cons] at hrun
    obtain ⟨c₁, hdoc, hrest⟩ := Option.bind_eq_some_iff.mp hrun
    obtain ⟨m', hm', hold, rfl⟩ := (addDocTo_eq_some hlocated).mp hdoc
    cases hd.symm.trans hm'
    have := ih hrest
    rw [Cursor.afterDoc, KVStore.apply_append] at this
    exact ⟨hold, this⟩

section OneDoc

variable {impl impl₁ : RocksDBImpl} {name : Bytes} {tid sid offset : UInt64} {schema : DocSchema}
  {d : Doc} {m : Fields} {x : Tip} {n : Nat}

/-- `AddDoc` adds the fields of its document, where the values it replaces are there. -/
theorem step_addDoc_iff (ht : Table impl name tid schema sid offset)
    (hlayout : Layout (impl.atTip tid x) n) (hd : d.serialize = some m) (hfixed : d.fixed = true) :
    step (impl.atTip tid x) (.addDoc name d true) = some impl₁ ↔
      Replaceable x.store tid x.sid x.offset m ∧ impl₁ = impl.atTip tid (x.add x.store tid m) := by
  have htx := table_atTip ht x
  have hone : step (impl.atTip tid x) (.addDoc name d true) =
      (addDocTo x.store tid ⟨[], x.sid, x.offset, false⟩ d).map fun c =>
        (impl.atTip tid x).commit tid c := by
    rw [step, addDoc, if_neg (by simp [hfixed]), addBatch_eq hlayout.catalog.registry htx,
      List.foldlM_cons]
    show Option.map _ (Option.map _ (Option.bind (addDocTo x.store tid _ d) _)) = _
    cases addDocTo x.store tid ⟨[], x.sid, x.offset, false⟩ d <;> rfl
  have hnext : (impl.atTip tid x).commit tid
      (Cursor.afterDoc x.store tid m ⟨[], x.sid, x.offset, false⟩) =
      impl.atTip tid (x.add x.store tid m) := atTip_commit
  rw [hone, Option.map_eq_some_iff]
  constructor
  · rintro ⟨c, hc, rfl⟩
    obtain ⟨m', hm', hold, rfl⟩ := (addDocTo_eq_some (hlayout.table htx).located).mp hc
    cases hd.symm.trans hm'
    exact ⟨hold, hnext⟩
  · rintro ⟨hold, rfl⟩
    exact ⟨_, (addDocTo_eq_some (hlayout.table htx).located).mpr ⟨m, hd, hold, rfl⟩, hnext⟩

theorem layout_add (ht : Table impl name tid schema sid offset)
    (hlayout : Layout (impl.atTip tid x) n) (hd : d.serialize = some m)
    (hold : Replaceable x.store tid x.sid x.offset m) (hroom : n + 1 < slotLimit) :
    Layout (impl.atTip tid (x.add x.store tid m)) (n + 1) := by
  have htx := table_atTip ht x
  have hbatch : [d].foldlM (addDocTo x.store tid) ⟨[], x.sid, x.offset, false⟩ =
      some (Cursor.afterDoc x.store tid m ⟨[], x.sid, x.offset, false⟩) := by
    rw [List.foldlM_cons]
    exact Option.bind_eq_some_iff.mpr
      ⟨_, (addDocTo_eq_some (hlayout.table htx).located).mpr ⟨m, hd, hold, rfl⟩, rfl⟩
  have hcommit := hlayout.commit htx hbatch hroom
  rw [atTip_commit] at hcommit
  exact hcommit

end OneDoc

/-- A loop of `AddDoc` adds their fields, each to what the one before has left. -/
theorem runSteps_loop_iff {impl implL : RocksDBImpl} {name : Bytes} {tid sid offset : UInt64}
    {schema : DocSchema} (ht : Table impl name tid schema sid offset) {docs : List Doc}
    {ms : List Fields} (hms : Serialized docs ms) :
    ∀ {x : Tip} {n : Nat}, Layout (impl.atTip tid x) n → n + docs.length < slotLimit →
      (∀ d ∈ docs, d.fixed = true) →
      (runSteps step (impl.atTip tid x) (loopOps name docs) = some implL ↔
        ∃ y, Adds Tip.store tid x ms y ∧ implL = impl.atTip tid y) := by
  induction hms with
  | nil =>
    intro x n _ _ _
    constructor
    · intro h
      cases h
      exact ⟨x, rfl, rfl⟩
    · rintro ⟨y, rfl, rfl⟩
      rfl
  | @cons d m docs ms hd _ ih =>
    intro x n hlayout hroom hfixed
    rw [List.length_cons] at hroom
    rw [loopOps, List.map_cons, runSteps]
    have hone := fun impl₁ => @step_addDoc_iff impl impl₁ name tid sid offset schema d m x n ht hlayout hd
      (hfixed d List.mem_cons_self)
    have hrest := fun hold => @ih (x.add x.store tid m) (n + 1)
      (layout_add ht hlayout hd hold (by omega)) (by omega)
      fun e he => hfixed e (List.mem_cons_of_mem _ he)
    constructor
    · intro h
      obtain ⟨impl₁, hmap, hlater⟩ := Option.bind_eq_some_iff.mp h
      obtain ⟨hold, rfl⟩ := (hone impl₁).mp hmap
      obtain ⟨y, hy, rfl⟩ := (hrest hold).mp hlater
      exact ⟨y, ⟨hold, hy⟩, rfl⟩
    · rintro ⟨y, ⟨hold, hy⟩, rfl⟩
      rw [(hone _).mpr ⟨hold, rfl⟩, Option.bind_some]
      exact (hrest hold).mpr ⟨y, hy, rfl⟩

/-- The loop ends as the batch has.

The stores are equal as a whole, index and schemas included, and so are segment and offset of the
table in the two caches: later documents go to the same places. -/
def LoopAgrees (impl : RocksDBImpl) (name : Bytes) (docs : List Doc) (tid : UInt64)
    (implB : RocksDBImpl) : Prop :=
  ∃ implL, runSteps step impl (loopOps name docs) = some implL ∧ implL.db = implB.db ∧
    implL.cache.segmap[tid]? = implB.cache.segmap[tid]? ∧
    implL.cache.offset[tid]? = implB.cache.offset[tid]?

/-- **When `AddDocs` does what a loop of `AddDoc` does**, in every state of every run that uses up
neither table ids nor segments.

`AddDocs` collects its writes in a batch and looks uids up in the store, which has not seen the
batch. A document whose uid comes earlier in the list is therefore not found where it has just been
put. `Independent` says of the list and the store before the call that this makes no difference.
Both sides are runs of `Tip.add`, one document after the other, that look up in different stores. -/
theorem addDocs_iff {ops : List Op} {impl implB : RocksDBImpl} {name : Bytes}
    {tid sid offset : UInt64} {schema : DocSchema} {docs : List Doc} {ms : List Fields}
    {status : Status} (hrun : runSteps step opened ops = some impl)
    (htables : tableCount ops < 2 ^ 64) (hdocs : docCount ops + docs.length < slotLimit)
    (ht : Table impl name tid schema sid offset) (hconforms : ∀ d ∈ docs, d.Conforms schema)
    (hms : Serialized docs ms) (hadd : impl.addDocs name docs true = some (status, implB)) :
    LoopAgrees impl name docs tid implB ↔ Independent impl.db tid sid offset ms := by
  have hlayout := Layout.run hrun htables (by omega)
  have hplaced := hlayout.table ht
  have hstart : Within impl.db tid sid offset ⟨impl.db, sid, offset⟩ ms.length := by
    refine ⟨Ahead.refl hplaced, ?_⟩
    have := hlayout.slot_le ht
    rw [← hms.length_eq]
    show slot (sid, offset) + docs.length < slotLimit
    omega
  have hids : ∀ m ∈ ms, ∀ m' ∈ ms, ∀ f, f ∈ m → f ∈ m' := by
    have hschema := hlayout.catalog.built name schema ht.schema
    have hall : ∀ m ∈ ms, ∀ f, f ∈ m ↔ f.toNat < schema.fieldsSchema.size := by
      intro m hm
      obtain ⟨i, hi, rfl⟩ := List.mem_iff_getElem.mp hm
      have hi' : i < docs.length := by rw [hms.length_eq]; exact hi
      obtain ⟨m', hm', hf⟩ := (hconforms docs[i] (List.getElem_mem hi')).serialize hschema
      cases (hms.get hi' hi).symm.trans hm'
      exact hf
    exact fun m hm m' hm' f hf => (hall m' hm' f).mpr ((hall m hm f).mp hf)
  rw [addDocs, addBatch_eq hlayout.catalog.registry ht] at hadd
  obtain ⟨c, hc, heq⟩ := Option.map_eq_some_iff.mp hadd
  cases heq
  have hbatch := adds_of_batch hplaced.located hms hc
  have hloop := fun implL => @runSteps_loop_iff impl implL name tid sid offset schema ht docs ms hms
    ⟨impl.db, sid, offset⟩ (docCount ops) (by rw [atTip_self ht]; exact hlayout) hdocs
    fun d hd => (hconforms d hd).built
  simp only [atTip_self ht] at hloop
  constructor
  · rintro ⟨implL, hL, hdb, hseg, hoff⟩
    obtain ⟨y, hy, rfl⟩ := (hloop implL).mp hL
    have hsid : y.sid = c.sid := by
      simpa [atTip, commit, getElem?_insert_eq] using hseg
    have hoffset : y.offset = c.offset := by
      simpa [atTip, commit, getElem?_insert_eq] using hoff
    refine Independent.of_same hids hstart hy hbatch hdb ?_
    rw [Tip.slot, hsid, hoffset]
    rfl
  · intro hind
    have hy := hind.loop hids hstart (show ms = ms ++ [] from (List.append_nil _).symm) hbatch
    exact ⟨_, (hloop _).mpr ⟨_, hy, rfl⟩, rfl, rfl, rfl⟩

/-- Three documents are added to a table with one. The first and the last have its uid, and stay
where it is. -/
theorem addDocs_iff_update : ∃ impl implB ms, runSteps step opened firstRun = some impl ∧
    impl.addDocs pairs [pairDoc 1 6, pairDoc 2 7, pairDoc 1 8] true = some (.ok, implB) ∧
    (LoopAgrees impl pairs [pairDoc 1 6, pairDoc 2 7, pairDoc 1 8] 0 implB ↔
      Independent impl.db 0 0 1 ms) := by
  have hvals : ((runSteps step opened firstRun).bind fun impl =>
      (impl.addDocs pairs [pairDoc 1 6, pairDoc 2 7, pairDoc 1 8] true).map fun r =>
        (r.1, impl.cache.tnamemap[pairs]?, impl.cache.segmap[(0 : UInt64)]?,
          impl.cache.offset[(0 : UInt64)]?)) = some (.ok, some 0, some 0, some 1) := by
    decide +kernel
  obtain ⟨impl, hrun, hmap⟩ := Option.bind_eq_some_iff.mp hvals
  obtain ⟨⟨status, implB⟩, hadd, heq⟩ := Option.map_eq_some_iff.mp hmap
  simp only [Prod.mk.injEq] at heq
  obtain ⟨rfl, hid, hsegment, hoffset⟩ := heq
  have h := RunCatalog.run hrun (by decide)
  have hs : impl.cache.tschemamap[pairs]? = some pairSchema.copy :=
    h.tschemamap_eq hid (by simp [firstRun])
  have hconforms : ∀ d ∈ [pairDoc 1 6, pairDoc 2 7, pairDoc 1 8], d.Conforms pairSchema.copy := by
    decide +kernel
  have hserialized : ∀ pk a, ∃ m, (pairDoc pk a).serialize = some m := fun pk a => by
    obtain ⟨m, hm, -⟩ := (pairDoc_conforms pk a).serialize pairSchema_fixed
    exact ⟨m, hm⟩
  obtain ⟨m₁, hm₁⟩ := hserialized 1 6
  obtain ⟨m₂, hm₂⟩ := hserialized 2 7
  obtain ⟨m₃, hm₃⟩ := hserialized 1 8
  exact ⟨impl, implB, [m₁, m₂, m₃], hrun, hadd, addDocs_iff hrun (by decide) (by decide)
    ⟨hid, hs, hsegment, hoffset⟩ hconforms (.cons hm₁ (.cons hm₂ (.cons hm₃ .nil))) hadd⟩

/-- Two documents with the same new uid: a batch puts them side by side, a loop replaces the
first by the second. -/
theorem addDocs_repeated :
    ¬∀ ops impl name tid schema sid offset docs status implB,
      runSteps step opened ops = some impl → Table impl name tid schema sid offset →
      (∀ d ∈ docs, d.Conforms schema) → impl.addDocs name docs true = some (status, implB) →
      LoopAgrees impl name docs tid implB := by
  intro hall
  have hvals : ((runSteps step opened [.createTable pairs pairSchema]).bind fun impl =>
      (impl.addDocs pairs [pairDoc 1 5, pairDoc 1 6] true).bind fun r =>
        (runSteps step impl (loopOps pairs [pairDoc 1 5, pairDoc 1 6])).map fun implL =>
          (impl.cache.tnamemap[pairs]?, r.2.cache.offset[(0 : UInt64)]?,
            implL.cache.offset[(0 : UInt64)]?)) = some (some 0, some 2, some 1) := by
    decide +kernel
  obtain ⟨impl, hrun, hrest⟩ := Option.bind_eq_some_iff.mp hvals
  obtain ⟨⟨status, implB⟩, hadd, hrest⟩ := Option.bind_eq_some_iff.mp hrest
  obtain ⟨implL, hloop, heq⟩ := Option.map_eq_some_iff.mp hrest
  simp only [Prod.mk.injEq] at heq
  obtain ⟨hid, hB, hL⟩ := heq
  have h := RunCatalog.run hrun (by decide)
  have hs : impl.cache.tschemamap[pairs]? = some pairSchema.copy := h.tschemamap_eq hid (by simp)
  obtain ⟨tid, sid, offset, ht⟩ := h.catalog.table hs
  cases ht.id.symm.trans hid
  have hconforms : ∀ d ∈ [pairDoc 1 5, pairDoc 1 6], d.Conforms pairSchema.copy := by
    decide +kernel
  obtain ⟨implL', hloop', -, -, hoff⟩ := hall _ impl pairs 0 _ sid offset _ status implB hrun ht
    hconforms hadd
  cases hloop.symm.trans hloop'
  rw [hB, hL] at hoff
  cases hoff

end CxxLab.RocksdbLab
