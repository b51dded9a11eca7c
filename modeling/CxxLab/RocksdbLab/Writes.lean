import CxxLab.RocksdbLab.Impl

/-!
# What the writes of a document do

`addDocTo` computes a batch from one store, `db`, and the batch is applied to one that may have
moved on since, because in `AddDocs` the documents before it are in the same batch. So this file
keeps the two apart: `addDocTo_eq` is the batch in closed form, with all lookups made in `db`, and
`read_docWrites` says what every key reads after the batch is applied to any store `T`. Everything
proved about documents later goes through these two.
-/

set_option autoImplicit false

namespace CxxLab.RocksdbLab

open Std CxxLab.Lib

/-- `$sid$id` of a location to delete, empty for none. -/
def oldAddr : Option Location → Bytes
  | none => []
  | some (s, o) => addr s o

/-- All uid records of a table are addresses. -/
def Located (S : Store) (tid : UInt64) : Prop :=
  ∀ uid a, S.read (.uidIdMapping tid uid) = some a → ∃ s o, a = addr s o

/-- Where a document goes, and the location it leaves for it in another segment. -/
structure Placement where
  offsetUsed : UInt64
  hasNew : Bool
  old : Option Location

/-- The record of a uid. A document without a field 0 has no uid. -/
def uidRecord (S : Store) (tid : UInt64) (uid : Option Bytes) : Option Bytes :=
  uid.bind fun u => S.read (.uidIdMapping tid u)

/-- The place of a document, by the record of its uid. -/
def placement (S : Store) (tid sid offset : UInt64) (uid : Option Bytes) : Placement :=
  match uidRecord S tid uid with
  | none => ⟨offset, true, none⟩
  | some a =>
    match deserialize a, deserialize (a.drop 8) with
    | some s, some o => if s = sid then ⟨o, false, none⟩ else ⟨offset, true, some (s, o)⟩
    | _, _ => ⟨offset, true, none⟩

section Placement

variable {S : Store} {tid sid offset : UInt64} {uid : Option Bytes}

theorem placement_new (h : uidRecord S tid uid = none) :
    placement S tid sid offset uid = ⟨offset, true, none⟩ := by
  rw [placement, h]

theorem placement_inPlace {o : UInt64} (h : uidRecord S tid uid = some (addr sid o)) :
    placement S tid sid offset uid = ⟨o, false, none⟩ := by
  rw [placement, h]
  simp only [deserialize_addr, deserialize_drop_addr, if_true]

theorem placement_move {s o : UInt64} (h : uidRecord S tid uid = some (addr s o))
    (hs : s ≠ sid) : placement S tid sid offset uid = ⟨offset, true, some (s, o)⟩ := by
  rw [placement, h]
  simp only [deserialize_addr, deserialize_drop_addr, if_neg hs]

variable (sid offset uid) in
/-- The three cases of the block for the uid. -/
theorem placement_cases (h : Located S tid) :
    (uidRecord S tid uid = none ∧
      placement S tid sid offset uid = ⟨offset, true, none⟩) ∨
    (∃ o, uidRecord S tid uid = some (addr sid o) ∧
      placement S tid sid offset uid = ⟨o, false, none⟩) ∨
    (∃ s o, s ≠ sid ∧ uidRecord S tid uid = some (addr s o) ∧
      placement S tid sid offset uid = ⟨offset, true, some (s, o)⟩) := by
  cases hread : uidRecord S tid uid with
  | none => exact .inl ⟨rfl, placement_new hread⟩
  | some a =>
    obtain ⟨u, rfl, hu⟩ := Option.bind_eq_some_iff.mp hread
    obtain ⟨s, o, rfl⟩ := h u a hu
    by_cases hs : s = sid
    · cases hs
      exact .inr (.inl ⟨o, rfl, placement_inPlace hread⟩)
    · exact .inr (.inr ⟨s, o, hs, rfl, placement_move hread hs⟩)

theorem placement_old_ne {s o : UInt64} (h : Located S tid)
    (hold : (placement S tid sid offset uid).old = some (s, o)) : s ≠ sid := by
  rcases placement_cases sid offset uid h with
    ⟨-, hp⟩ | ⟨o', -, hp⟩ | ⟨s', o', hs', -, hp⟩ <;> rw [hp] at hold <;> cases hold
  exact hs'

theorem placement_old {s o : UInt64} (h : Located S tid)
    (hold : (placement S tid sid offset uid).old = some (s, o)) :
    uidRecord S tid uid = some (addr s o) := by
  rcases placement_cases sid offset uid h with
    ⟨-, hp⟩ | ⟨o', -, hp⟩ | ⟨s', o', -, hrecord, hp⟩ <;> rw [hp] at hold <;> cases hold
  exact hrecord

theorem placement_hasNew (h : Located S tid) (hnew : (placement S tid sid offset uid).hasNew = true) :
    (placement S tid sid offset uid).offsetUsed = offset := by
  rcases placement_cases sid offset uid h with
    ⟨-, hp⟩ | ⟨o', -, hp⟩ | ⟨s', o', -, -, hp⟩ <;> rw [hp] at hnew ⊢
  cases hnew

/-- A document stays where it is exactly if it is in the current segment. -/
theorem placement_hasNew_false (h : Located S tid) :
    (placement S tid sid offset uid).hasNew = false ↔
      ∃ o, uidRecord S tid uid = some (addr sid o) ∧
        placement S tid sid offset uid = ⟨o, false, none⟩ := by
  rcases placement_cases sid offset uid h with
    ⟨hrecord, hp⟩ | ⟨o', hrecord, hp⟩ | ⟨s', o', hs, hrecord, hp⟩ <;> rw [hp, hrecord]
  · simp
  · exact ⟨fun _ => ⟨o', rfl, rfl⟩, fun _ => rfl⟩
  · simp

end Placement

/-! ## The batch in closed form -/

/-- The writes of the block for the uid. -/
def uidWrites (tid sid : UInt64) (uid : Option Bytes) (p : Placement) : WriteBatch :=
  match uid with
  | none => []
  | some u =>
    (if p.old.isSome then [.delete (Key.uidIdMapping tid u).encode] else []) ++
      [.put (Key.uidIdMapping tid u).encode (addr sid p.offsetUsed)]

/-- The deletions of the block for a field, with the old values as `db` has them. -/
def fieldDeletes (db : Store) (tid : UInt64) (fid : UInt8) : Option Location → WriteBatch
  | none => []
  | some (s, o) =>
    [.delete (Key.fieldValue tid s o fid).encode,
      .delete (Key.fieldIndex tid fid ((db.read (.fieldValue tid s o fid)).getD []) s o).encode]

/-- The writes of the block for a field. -/
def fieldWrites (db : Store) (tid sid : UInt64) (p : Placement) (f : UInt8 × Bytes) : WriteBatch :=
  fieldDeletes db tid f.1 p.old ++
    [.put (Key.fieldValue tid sid p.offsetUsed f.1).encode f.2,
      .put (Key.fieldIndex tid f.1 f.2 sid p.offsetUsed).encode []]

/-- The cursor after a new document. -/
def advance (sid offset : UInt64) : Location :=
  if offset + 1 ≥ segmentSize then (sid + 1, 0) else (sid, offset + 1)

/-- The cursor after a document. -/
def nextLocation (sid offset : UInt64) (p : Placement) : Location :=
  if p.hasNew then advance sid offset else (sid, offset)

/-- A document starts a new segment. -/
def Rolls (offset : UInt64) (p : Placement) : Prop := p.hasNew = true ∧ offset + 1 ≥ segmentSize

instance (offset : UInt64) (p : Placement) : Decidable (Rolls offset p) :=
  inferInstanceAs (Decidable (_ ∧ _))

/-- The writes that follow the loop. -/
def cursorWrites (tid sid offset : UInt64) (p : Placement) : WriteBatch :=
  (if Rolls offset p then [.put (Key.currentSegment tid).encode (serialize (sid + 1))] else []) ++
    [.put (Key.segmentNextID tid).encode
      (addr (nextLocation sid offset p).1 (nextLocation sid offset p).2)]

/-- All writes of a document with these serialized fields. -/
def docWrites (db : Store) (tid sid offset : UInt64) (m : ExtTreeMap UInt8 Bytes) : WriteBatch :=
  let p := placement db tid sid offset m[(0 : UInt8)]?
  uidWrites tid sid m[(0 : UInt8)]? p ++ m.toList.flatMap (fieldWrites db tid sid p) ++
    cursorWrites tid sid offset p

/-- The cursor after `addDocTo`. -/
def Cursor.afterDoc (db : Store) (tid : UInt64) (m : ExtTreeMap UInt8 Bytes) (c : Cursor) :
    Cursor :=
  let p := placement db tid c.sid c.offset m[(0 : UInt8)]?
  { wb := c.wb ++ docWrites db tid c.sid c.offset m
    sid := (nextLocation c.sid c.offset p).1
    offset := (nextLocation c.sid c.offset p).2
    hasUpdate := c.hasUpdate || decide (Rolls c.offset p) }

section Closed

variable {db : Store} {tid sid : UInt64}

theorem placeUid_eq {offset : UInt64} {uid : Bytes} {p : Placement} (h : Located db tid)
    (hplace : placement db tid sid offset (some uid) = p) (wb : WriteBatch) :
    placeUid db tid sid uid ⟨[], offset, true, wb⟩ =
      some ⟨oldAddr p.old, p.offsetUsed, p.hasNew, wb ++ uidWrites tid sid (some uid) p⟩ := by
  rw [placeUid, findUid, ← hplace]
  rcases placement_cases sid offset (some uid) h with
    ⟨hread, hp⟩ | ⟨o, hread, hp⟩ | ⟨s, o, hs, hread, hp⟩
  · have hget : db[uidIdMappingKey tid uid]? = none := hread
    simp only [hget, hp]
    rfl
  · have hget : db[uidIdMappingKey tid uid]? = some (addr sid o) := hread
    simp only [hget, hp, deserialize_addr, deserialize_drop_addr, Option.bind_eq_bind,
      Option.bind_some, ne_eq, not_true_eq_false, if_false]
    rfl
  · have hget : db[uidIdMappingKey tid uid]? = some (addr s o) := hread
    simp only [hget, hp, deserialize_addr, Option.bind_eq_bind, Option.bind_some, ne_eq, hs,
      not_false_eq_true, if_true, Option.pure_def, List.append_assoc]
    rfl

/-- The old values a document needs are there. -/
def HasOld (db : Store) (tid : UInt64) (old : Option Location) (fid : UInt8) : Prop :=
  ∀ s o, old = some (s, o) → ∃ v, db.read (.fieldValue tid s o fid) = some v

variable (sid) in
theorem writeField_eq {p : Placement} {fid : UInt8} (h : HasOld db tid p.old fid) (v : Bytes)
    (wb : WriteBatch) :
    writeField db tid sid fid v ⟨oldAddr p.old, p.offsetUsed, p.hasNew, wb⟩ =
      some ⟨oldAddr p.old, p.offsetUsed, p.hasNew, wb ++ fieldWrites db tid sid p (fid, v)⟩ := by
  obtain ⟨off, hasNew, old⟩ := p
  cases old with
  | none => rfl
  | some loc =>
    obtain ⟨s, o⟩ := loc
    obtain ⟨w, hw⟩ := h s o rfl
    have hget : db[fieldValueKey tid (addr s o) fid]? = some w := hw
    simp only [writeField, deleteField, oldAddr, if_neg (addr_ne_nil s o), hget, fieldWrites, fieldDeletes, hw,
      Option.bind_eq_bind, Option.bind_some, Option.pure_def, Option.getD_some, List.append_assoc]
    rfl

/-- A field is written only if the old value is there. -/
theorem hasOld_of_writeField {p : Placement} {fid : UInt8} {v : Bytes} {wb : WriteBatch}
    {st : FieldState}
    (h : writeField db tid sid fid v ⟨oldAddr p.old, p.offsetUsed, p.hasNew, wb⟩ = some st) :
    HasOld db tid p.old fid := by
  intro s o hold
  rw [hold] at h
  cases hget : db[fieldValueKey tid (addr s o) fid]? with
  | some w => exact ⟨w, hget⟩
  | none =>
    simp only [writeField, deleteField, oldAddr, if_neg (addr_ne_nil s o), hget,
      Option.bind_eq_bind, Option.bind_none, reduceCtorEq] at h

/-- **One field and what comes after it.** -/
theorem writeField_bind {β : Type} {p : Placement} {fid : UInt8} {v : Bytes} {wb : WriteBatch}
    {k : FieldState → Option β} {b : β} :
    (writeField db tid sid fid v ⟨oldAddr p.old, p.offsetUsed, p.hasNew, wb⟩ >>= k) = some b ↔
      HasOld db tid p.old fid ∧
        k ⟨oldAddr p.old, p.offsetUsed, p.hasNew, wb ++ fieldWrites db tid sid p (fid, v)⟩ =
          some b := by
  constructor
  · intro h
    obtain ⟨st, hone, hlater⟩ := Option.bind_eq_some_iff.mp h
    have hold := hasOld_of_writeField hone
    rw [writeField_eq sid hold v wb] at hone
    cases hone
    exact ⟨hold, hlater⟩
  · rintro ⟨hold, hlater⟩
    rw [writeField_eq sid hold v wb]
    exact hlater

/-- The loop over fields other than the uid: it ends if the old values are there. -/
theorem foldlM_addField_eq {p : Placement} : ∀ {fields : List (UInt8 × Bytes)} (wb : WriteBatch)
    (st : FieldState), (∀ f ∈ fields, f.1 ≠ 0) →
    (fields.foldlM (addField db tid sid) ⟨oldAddr p.old, p.offsetUsed, p.hasNew, wb⟩ = some st ↔
      (∀ f ∈ fields, HasOld db tid p.old f.1) ∧
      st = ⟨oldAddr p.old, p.offsetUsed, p.hasNew,
        wb ++ fields.flatMap (fieldWrites db tid sid p)⟩) := by
  intro fields
  induction fields with
  | nil =>
    intro wb st _
    simp [eq_comm]
  | cons f fields ih =>
    intro wb st hne
    have hfield : addField db tid sid ⟨oldAddr p.old, p.offsetUsed, p.hasNew, wb⟩ f =
        writeField db tid sid f.1 f.2 ⟨oldAddr p.old, p.offsetUsed, p.hasNew, wb⟩ := by
      rw [addField, if_neg (hne f List.mem_cons_self)]
      rfl
    have hrest := ih (wb ++ fieldWrites db tid sid p f) st
      (fun g hg => hne g (List.mem_cons_of_mem _ hg))
    rw [List.foldlM_cons, hfield, writeField_bind, hrest, List.forall_mem_cons, List.flatMap_cons,
      ← List.append_assoc, and_assoc]

end Closed

/-- A uid comes first. -/
theorem toList_eq_cons {m : ExtTreeMap UInt8 Bytes} {uid : Bytes} (h : m[(0 : UInt8)]? = some uid) :
    ∃ rest, m.toList = (0, uid) :: rest ∧ ∀ f ∈ rest, f.1 ≠ 0 := by
  have hmem := ExtTreeMap.mem_toList_iff_getElem?_eq_some.mpr h
  have hsorted : m.toList.Pairwise fun a b => compare a.1 b.1 = .lt := ExtTreeMap.ordered_keys_toList
  cases hlist : m.toList with
  | nil =>
    rw [hlist] at hmem
    cases hmem
  | cons f rest =>
    rw [hlist] at hmem hsorted
    obtain ⟨hfirst, -⟩ := List.pairwise_cons.mp hsorted
    rcases List.mem_cons.mp hmem with rfl | hin
    · refine ⟨rest, rfl, fun g hg hzero => ?_⟩
      have hlt := hfirst g hg
      rw [hzero, Std.compare_self] at hlt
      cases hlt
    · have hlt := Std.compare_eq_lt.mp (hfirst _ hin)
      exact absurd hlt (UInt8.not_lt_zero)

theorem forall_mem_toList {m : ExtTreeMap UInt8 Bytes} {P : UInt8 → Prop} :
    (∀ f ∈ m.toList, P f.1) ↔ ∀ fid ∈ m, P fid := by
  constructor
  · intro h fid hfid
    obtain ⟨v, hv⟩ := mem_iff_exists.mp hfid
    exact h (fid, v) (ExtTreeMap.mem_toList_iff_getElem?_eq_some.mpr hv)
  · intro h f hf
    exact h f.1 (mem_iff_exists.mpr ⟨f.2, ExtTreeMap.mem_toList_iff_getElem?_eq_some.mp hf⟩)

/-- The old values a document needs are all there. -/
def Replaceable (db : Store) (tid sid offset : UInt64) (m : ExtTreeMap UInt8 Bytes) : Prop :=
  ∀ fid ∈ m, HasOld db tid (placement db tid sid offset m[(0 : UInt8)]?).old fid

/-- The loop over the fields of a document. -/
theorem foldlM_addField {db : Store} {tid : UInt64} {c : Cursor} {m : ExtTreeMap UInt8 Bytes}
    (hlocated : Located db tid) (st : FieldState) :
    let p := placement db tid c.sid c.offset m[(0 : UInt8)]?
    m.toList.foldlM (addField db tid c.sid) ⟨[], c.offset, true, c.wb⟩ = some st ↔
      Replaceable db tid c.sid c.offset m ∧
      st = ⟨oldAddr p.old, p.offsetUsed, p.hasNew, c.wb ++ uidWrites tid c.sid m[(0 : UInt8)]? p ++
        m.toList.flatMap (fieldWrites db tid c.sid p)⟩ := by
  intro p
  rw [Replaceable, ← forall_mem_toList]
  cases huid : m[(0 : UInt8)]? with
  | none =>
    have hp : p = ⟨c.offset, true, none⟩ := placement_new (by rw [huid]; rfl)
    have hne : ∀ f ∈ m.toList, f.1 ≠ 0 := by
      intro f hf hzero
      have := ExtTreeMap.mem_toList_iff_getElem?_eq_some.mp hf
      rw [hzero, huid] at this
      cases this
    have := @foldlM_addField_eq db tid c.sid p m.toList c.wb st hne
    rw [hp] at this ⊢
    rw [show placement db tid c.sid c.offset none = p by rw [← huid], hp]
    simpa only [uidWrites, List.append_nil, oldAddr] using this
  | some uid =>
    obtain ⟨rest, hlist, hrest⟩ := toList_eq_cons huid
    have hplace : placement db tid c.sid c.offset (some uid) = p := by rw [← huid]
    have hfirst : addField db tid c.sid ⟨[], c.offset, true, c.wb⟩ (0, uid) =
        writeField db tid c.sid 0 uid ⟨oldAddr p.old, p.offsetUsed, p.hasNew,
          c.wb ++ uidWrites tid c.sid (some uid) p⟩ := by
      simp only [addField, if_true, placeUid_eq hlocated hplace, Option.bind_eq_bind,
        Option.bind_some]
    rw [hplace, hlist, List.foldlM_cons, hfirst, writeField_bind, foldlM_addField_eq _ _ hrest,
      List.forall_mem_cons, List.flatMap_cons, ← List.append_assoc, and_assoc]

/-- **The batch of a document in closed form.** The assertion is that the old values are there. -/
theorem addDocTo_eq_some {db : Store} {tid : UInt64} {c c' : Cursor} {doc : Doc}
    (hlocated : Located db tid) :
    addDocTo db tid c doc = some c' ↔ ∃ m, doc.serialize = some m ∧
      Replaceable db tid c.sid c.offset m ∧ c' = c.afterDoc db tid m := by
  have hfinish : ∀ m, finishDoc tid
      ⟨oldAddr (placement db tid c.sid c.offset m[(0 : UInt8)]?).old,
        (placement db tid c.sid c.offset m[(0 : UInt8)]?).offsetUsed,
        (placement db tid c.sid c.offset m[(0 : UInt8)]?).hasNew,
        c.wb ++ uidWrites tid c.sid m[(0 : UInt8)]? (placement db tid c.sid c.offset m[(0 : UInt8)]?) ++
        m.toList.flatMap (fieldWrites db tid c.sid (placement db tid c.sid c.offset m[(0 : UInt8)]?))⟩
      c = c.afterDoc db tid m := by
    intro m
    simp only [Cursor.afterDoc, docWrites, finishDoc, cursorWrites, nextLocation, advance, Rolls]
    generalize placement db tid c.sid c.offset m[(0 : UInt8)]? = p
    by_cases hnew : p.hasNew = true
    · by_cases hroll : c.offset + 1 ≥ segmentSize
      · simp [hnew, hroll]
        exact ⟨rfl, rfl⟩
      · simp [hnew, hroll]
        rfl
    · simp [hnew]
      rfl
  simp only [addDocTo, Option.bind_eq_bind, Option.bind_eq_some_iff, Option.pure_def,
    Option.some.injEq, foldlM_addField hlocated]
  constructor
  · rintro ⟨m, hm, st, ⟨hold, rfl⟩, rfl⟩
    exact ⟨m, hm, hold, hfinish m⟩
  · rintro ⟨m, hm, hold, rfl⟩
    exact ⟨m, hm, _, ⟨hold, rfl⟩, hfinish m⟩

/-! ## What it does -/

/-- The records after the writes of some fields. `vals` are the fields, `oldVals` those of the
location they leave. -/
def fieldsEffect (tid sid : UInt64) (p : Placement) (vals oldVals : UInt8 → Option Bytes)
    (R : Key → Option Bytes) : Key → Option Bytes
  | .fieldValue t s o f =>
    if t = tid ∧ (vals f).isSome ∧ s = sid ∧ o = p.offsetUsed then vals f
    else if t = tid ∧ (vals f).isSome ∧ p.old = some (s, o) then none
    else R (.fieldValue t s o f)
  | .fieldIndex t f v s o =>
    if t = tid ∧ vals f = some v ∧ s = sid ∧ o = p.offsetUsed then some []
    else if t = tid ∧ (vals f).isSome ∧ p.old = some (s, o) ∧ oldVals f = some v then none
    else R (.fieldIndex t f v s o)
  | k => R k

/-- **The records after a document.** -/
def docEffect (tid sid offset : UInt64) (uid : Option Bytes) (p : Placement)
    (vals oldVals : UInt8 → Option Bytes) (R : Key → Option Bytes) : Key → Option Bytes
  | .uidIdMapping t u =>
    if t = tid ∧ uid = some u then some (addr sid p.offsetUsed) else R (.uidIdMapping t u)
  | .currentSegment t =>
    if t = tid ∧ Rolls offset p then some (serialize (sid + 1)) else R (.currentSegment t)
  | .segmentNextID t =>
    if t = tid then some (addr (nextLocation sid offset p).1 (nextLocation sid offset p).2)
    else R (.segmentNextID t)
  | k => fieldsEffect tid sid p vals oldVals R k

section Effect

variable {db : Store} {tid sid offset : UInt64}

/-- The values at the location a document leaves. -/
def oldValues (db : Store) (tid : UInt64) (p : Placement) (fid : UInt8) : Option Bytes :=
  p.old.bind fun loc => db.read (.fieldValue tid loc.1 loc.2 fid)

theorem read_fieldWrites {p : Placement} {f : UInt8 × Bytes} (hold : HasOld db tid p.old f.1)
    (hne : ∀ s o, p.old = some (s, o) → s ≠ sid) (T : Store) (k : Key) :
    Store.read (T.apply (fieldWrites db tid sid p f)) k =
      fieldsEffect tid sid p (fun g => if g = f.1 then some f.2 else none) (oldValues db tid p)
        T.read k := by
  obtain ⟨off, hasNew, old⟩ := p
  cases old with
  | none =>
    simp only [fieldWrites, fieldDeletes, List.nil_append, KVStore.apply_cons, KVStore.apply_nil,
      Store.read_put]
    cases k <;> simp [fieldsEffect] <;> grind
  | some loc =>
    obtain ⟨s, o⟩ := loc
    obtain ⟨w, hw⟩ := hold s o rfl
    have hs := hne s o rfl
    simp only [fieldWrites, fieldDeletes, List.cons_append, List.nil_append, KVStore.apply_cons,
      KVStore.apply_nil, Store.read_put, Store.read_delete, hw, Option.getD_some]
    cases k <;> simp [fieldsEffect, oldValues] <;> grind

/-- Two fields are written one after the other. -/
theorem fieldsEffect_fieldsEffect {p : Placement} {vals vals' oldVals : UInt8 → Option Bytes}
    (hdisjoint : ∀ f, vals f = none ∨ vals' f = none) (R : Key → Option Bytes) :
    fieldsEffect tid sid p vals' oldVals (fieldsEffect tid sid p vals oldVals R) =
      fieldsEffect tid sid p (fun f => (vals f).or (vals' f)) oldVals R := by
  funext k
  cases k with
  | fieldValue t s o f =>
    rcases hdisjoint f with hf | hf <;> simp [fieldsEffect, hf]
  | fieldIndex t f v s o =>
    rcases hdisjoint f with hf | hf <;> simp [fieldsEffect, hf]
  | _ => rfl

theorem read_flatMap_fieldWrites {p : Placement} (hne : ∀ s o, p.old = some (s, o) → s ≠ sid) :
    ∀ {fields : List (UInt8 × Bytes)} (T : Store), (fields.map Prod.fst).Nodup →
      (∀ f ∈ fields, HasOld db tid p.old f.1) →
      Store.read (T.apply (fields.flatMap (fieldWrites db tid sid p))) =
        fieldsEffect tid sid p (fun f => fields.lookup f) (oldValues db tid p) T.read := by
  intro fields
  induction fields with
  | nil =>
    intro T _ _
    funext k
    cases k <;> simp [fieldsEffect]
  | cons f fields ih =>
    intro T hnodup hold
    obtain ⟨fid, v⟩ := f
    rw [List.map_cons, List.nodup_cons] at hnodup
    have hnot : fields.lookup fid = none := by
      rw [List.lookup_eq_none_iff]
      intro g hg
      rw [bne_iff_ne]
      intro heq
      exact hnodup.1 (List.mem_map.mpr ⟨g, hg, heq.symm⟩)
    have hone : Store.read (T.apply (fieldWrites db tid sid p (fid, v))) = _ :=
      funext (read_fieldWrites (hold (fid, v) List.mem_cons_self) hne T)
    rw [List.flatMap_cons, KVStore.apply_append, ih _ hnodup.2
      (fun g hg => hold g (List.mem_cons_of_mem _ hg)), hone, fieldsEffect_fieldsEffect]
    · congr 1
      funext g
      by_cases hg : g = fid
      · simp [hg]
      · simp [hg, List.lookup_cons, beq_eq_false_iff_ne.mpr hg]
    · intro g
      by_cases hg : g = fid
      · exact .inr (hg ▸ hnot)
      · exact .inl (if_neg hg)

theorem lookup_toList (m : ExtTreeMap UInt8 Bytes) (f : UInt8) : m.toList.lookup f = m[f]? := by
  have hdistinct : m.toList.Pairwise fun a b => ¬compare a.1 b.1 = .eq :=
    ExtTreeMap.distinct_keys_toList
  cases hf : m[f]? with
  | some v =>
    obtain ⟨l₁, l₂, hsplit⟩ :=
      List.append_of_mem (ExtTreeMap.mem_toList_iff_getElem?_eq_some.mpr hf)
    rw [hsplit] at hdistinct ⊢
    refine List.lookup_eq_some_iff.mpr ⟨l₁, l₂, rfl, fun g hg => ?_⟩
    have hne := (List.pairwise_append.mp hdistinct).2.2 g hg (f, v) List.mem_cons_self
    rw [Std.compare_eq_iff_eq] at hne
    exact bne_iff_ne.mpr (Ne.symm hne)
  | none =>
    rw [List.lookup_eq_none_iff]
    intro g hg
    rw [bne_iff_ne]
    rintro rfl
    rw [ExtTreeMap.mem_toList_iff_getElem?_eq_some.mp hg] at hf
    cases hf

/-- **What every key reads after the writes of a document.** -/
theorem read_docWrites {m : ExtTreeMap UInt8 Bytes} (hlocated : Located db tid)
    (hold : Replaceable db tid sid offset m) (T : Store) :
    Store.read (T.apply (docWrites db tid sid offset m)) =
      docEffect tid sid offset m[(0 : UInt8)]? (placement db tid sid offset m[(0 : UInt8)]?)
        (fun f => m[f]?) (oldValues db tid (placement db tid sid offset m[(0 : UInt8)]?)) T.read := by
  have hne : ∀ s o, (placement db tid sid offset m[(0 : UInt8)]?).old = some (s, o) → s ≠ sid :=
    fun s o => placement_old_ne hlocated
  rw [docWrites]
  unfold Replaceable at hold
  generalize placement db tid sid offset m[(0 : UInt8)]? = p at *
  have hnodup : (m.toList.map Prod.fst).Nodup := by
    rw [ExtTreeMap.map_fst_toList_eq_keys]
    exact ExtTreeMap.nodup_keys
  have hfields := read_flatMap_fieldWrites hne (T.apply (uidWrites tid sid m[(0 : UInt8)]? p)) hnodup
    (forall_mem_toList.mpr hold)
  simp only [lookup_toList] at hfields
  rw [KVStore.apply_append, KVStore.apply_append]
  have huid : ∀ k, Store.read (T.apply (uidWrites tid sid m[(0 : UInt8)]? p)) k =
      if m[(0 : UInt8)]?.map (Key.uidIdMapping tid) = some k then some (addr sid p.offsetUsed)
      else T.read k := by
    intro k
    cases m[(0 : UInt8)]? with
    | none => rfl
    | some u =>
      simp only [uidWrites, Option.map_some, Option.some_inj, @eq_comm _ _ k]
      split
      · simp only [List.cons_append, List.nil_append, KVStore.apply_cons, KVStore.apply_nil,
          Store.read_put, Store.read_delete]
        split <;> rfl
      · exact Store.read_put _ _ _ _
  generalize (T.apply (uidWrites tid sid m[(0 : UInt8)]? p)).apply _ = U at *
  -- The three parts are about different families.
  funext k
  have hcursor : Store.read (U.apply (cursorWrites tid sid offset p)) k =
      if k = .segmentNextID tid then
        some (addr (nextLocation sid offset p).1 (nextLocation sid offset p).2)
      else if k = .currentSegment tid ∧ Rolls offset p then some (serialize (sid + 1))
      else Store.read U k := by
    rw [cursorWrites]
    split
    · rename_i hroll
      simp only [List.cons_append, List.nil_append, KVStore.apply_cons, KVStore.apply_nil,
        Store.read_put, hroll, and_true]
    · rename_i hroll
      simp only [List.nil_append, KVStore.apply_cons, KVStore.apply_nil, Store.read_put, hroll,
        and_false, if_false]
  rw [hcursor, hfields]
  cases k <;> simp_all [docEffect, fieldsEffect]
  grind

theorem read_docWrites_uid {m : ExtTreeMap UInt8 Bytes} (hlocated : Located db tid)
    (hold : Replaceable db tid sid offset m) (T : Store) (u : Bytes) :
    Store.read (T.apply (docWrites db tid sid offset m)) (.uidIdMapping tid u) =
      if m[(0 : UInt8)]? = some u then
        some (addr sid (placement db tid sid offset m[(0 : UInt8)]?).offsetUsed)
      else T.read (.uidIdMapping tid u) := by
  rw [read_docWrites hlocated hold]
  simp only [docEffect, true_and]

theorem read_docWrites_value {m : ExtTreeMap UInt8 Bytes} (hlocated : Located db tid)
    (hold : Replaceable db tid sid offset m) (T : Store) (s o : UInt64) (f : UInt8) :
    Store.read (T.apply (docWrites db tid sid offset m)) (.fieldValue tid s o f) =
      if f ∈ m ∧ s = sid ∧ o = (placement db tid sid offset m[(0 : UInt8)]?).offsetUsed then m[f]?
      else if f ∈ m ∧ (placement db tid sid offset m[(0 : UInt8)]?).old = some (s, o) then none
      else T.read (.fieldValue tid s o f) := by
  rw [read_docWrites hlocated hold]
  simp only [docEffect, fieldsEffect, true_and, ExtTreeMap.mem_iff_isSome_getElem?]

/-- The location a record is about. -/
def Key.location : Key → Option (UInt64 × Location)
  | .fieldIndex tid _ _ sid id => some (tid, sid, id)
  | .fieldValue tid sid id _ => some (tid, sid, id)
  | _ => none

/-- Nothing changes at locations other than the one a document goes to and the one it leaves. -/
theorem read_docWrites_at {m : ExtTreeMap UInt8 Bytes} (hlocated : Located db tid)
    (hold : Replaceable db tid sid offset m) (T : Store) {k : Key} {s o : UInt64}
    (hk : k.location = some (tid, s, o))
    (hto : ¬(s = sid ∧ o = (placement db tid sid offset m[(0 : UInt8)]?).offsetUsed))
    (hfrom : (placement db tid sid offset m[(0 : UInt8)]?).old ≠ some (s, o)) :
    Store.read (T.apply (docWrites db tid sid offset m)) k = T.read k := by
  rw [read_docWrites hlocated hold]
  cases k <;> cases hk <;> simp [docEffect, fieldsEffect, hto, hfrom]

/-- The table of a record of a document. -/
def Key.docTable : Key → Option UInt64
  | .uidIdMapping tid _ => some tid
  | .fieldIndex tid _ _ _ _ => some tid
  | .fieldValue tid _ _ _ => some tid
  | _ => none

theorem docEffect_of_ne {uid : Option Bytes} {p : Placement} {vals oldVals : UInt8 → Option Bytes}
    {R : Key → Option Bytes} {k : Key} {t : UInt64} (hk : k.docTable = some t) (ht : t ≠ tid) :
    docEffect tid sid offset uid p vals oldVals R k = R k := by
  cases k <;> cases hk <;> simp [docEffect, fieldsEffect, ht]

end Effect

/-! ## Batches of documents -/

/-- **The rule for batches**: what the writes of every document keep, looked up in `db`, the batch
keeps. -/
theorem foldlM_addDocTo_inv {db : Store} {tid : UInt64} {I : Store → Cursor → Prop}
    (hlocated : Located db tid)
    (hstep : ∀ T c (doc : Doc) m, I T c → doc.serialize = some m → Replaceable db tid c.sid c.offset m →
      I (T.apply (docWrites db tid c.sid c.offset m)) (c.afterDoc db tid m)) :
    ∀ {docs : List Doc} {c c' : Cursor}, docs.foldlM (addDocTo db tid) c = some c' →
      I (db.apply c.wb) c → I (db.apply c'.wb) c' := by
  intro docs
  induction docs with
  | nil =>
    intro c c' hrun h
    cases hrun
    exact h
  | cons doc docs ih =>
    intro c c' hrun h
    rw [List.foldlM_cons] at hrun
    obtain ⟨c₁, hdoc, hrest⟩ := Option.bind_eq_some_iff.mp hrun
    obtain ⟨m, hm, hold, rfl⟩ := (addDocTo_eq_some hlocated).mp hdoc
    refine ih hrest ?_
    rw [Cursor.afterDoc, KVStore.apply_append]
    exact hstep _ c doc m h hm hold

/-- A batch leaves the documents of other tables alone. -/
theorem foldlM_addDocTo_frame {db : Store} {tid t : UInt64} {docs : List Doc} {c c' : Cursor}
    {k : Key} (hlocated : Located db tid) (hrun : docs.foldlM (addDocTo db tid) c = some c')
    (hk : k.docTable = some t) (ht : t ≠ tid) :
    Store.read (db.apply c'.wb) k = Store.read (db.apply c.wb) k := by
  refine foldlM_addDocTo_inv (I := fun T _ => Store.read T k = Store.read (db.apply c.wb) k)
    hlocated ?_ hrun rfl
  intro T c₁ doc m hT _ hold
  rw [read_docWrites hlocated hold, docEffect_of_ne hk ht]
  exact hT

/-- Uid records stay addresses. -/
theorem Located.docWrites {db T : Store} {tid sid offset t : UInt64} {m : ExtTreeMap UInt8 Bytes}
    (hT : Located T t) (hdb : Located db tid) (hold : Replaceable db tid sid offset m) :
    Located (T.apply (docWrites db tid sid offset m)) t := by
  intro u a hread
  rw [read_docWrites hdb hold] at hread
  simp only [docEffect] at hread
  split at hread
  · cases hread
    exact ⟨_, _, rfl⟩
  · exact hT u a hread

end CxxLab.RocksdbLab
