import CxxLab.RocksdbLab.Keys
import Mathlib.Data.Finset.Card

/-!
# `rocksdb_lab/advanced_doc.h` — the schemas of namespace `document`

A schema of the new kind takes its fields one by one and numbers them in the order in which their
names first come; a field whose name is known replaces the one that has it. `Serialize` writes a
count and the fields, each with its number, and `Deserialize` adds what it reads to a new schema.

Numbers are `uint8_t` and the vector of fields has no bound. With up to 255 names what is read back
is the schema that was written (`deserialize_ofFields`). With 256 the loop of `Serialize`, whose
counter is such a number, never ends (`serialize_ends_iff`).
-/

set_option autoImplicit false

namespace CxxLab.RocksdbLab.Document

open Std CxxLab.Lib

/-! ## Fields -/

/-- `StringTraits`, `FloatTraits`, `LongTraits` and `IntTraits`. -/
inductive FieldKind where
  | string
  | float
  | long
  | int
  deriving DecidableEq

/-- `TypeValue`. -/
def FieldKind.typeValue : FieldKind → UInt8
  | string => 1
  | float => 2
  | long => 3
  | int => 4

/-- `FieldT`, with the bytes of its value. -/
structure Field where
  kind : FieldKind
  name : Bytes
  value : Bytes := []
  deriving DecidableEq

namespace Field

/-- `FieldT::Serialize`. It is always called without `has_val`, and its result is always true. -/
def serialize (f : Field) : Bytes := [f.kind.typeValue, UInt8.ofNat f.name.length] ++ f.name

/-- The field a type value calls for. -/
def ofType (fieldType : UInt8) (name : Bytes) : Option Field :=
  if fieldType = FieldKind.float.typeValue then some { kind := .float, name := name }
  else if fieldType = FieldKind.long.typeValue then some { kind := .long, name := name }
  else if fieldType = FieldKind.int.typeValue then some { kind := .int, name := name }
  else if fieldType = FieldKind.string.typeValue then some { kind := .string, name := name }
  else none

/-- `FieldT::Deserialize`: the field and `consumed`. There is no result where it reads past the
end, or where it returns the null pointer its caller asserts it does not. -/
def deserialize : Bytes → Option (Field × Nat)
  | fieldType :: nameSize :: rest =>
    if nameSize.toNat ≤ rest.length then
      (ofType fieldType (rest.take nameSize.toNat)).map fun f => (f, 1 + 1 + nameSize.toNat)
    else none
  | _ => none

end Field

/-! ## Schemas -/

/-- `BaseDocT`. -/
structure BaseDoc where
  fnameField : ExtTreeMap Bytes Field
  fidField : List Field
  fnameFid : ExtTreeMap Bytes UInt8

namespace BaseDoc

def new : BaseDoc := ⟨∅, [], ∅⟩

/-- `BaseDocT::AddField`. -/
def addField (d : BaseDoc) (field : Field) : BaseDoc :=
  match d.fnameFid[field.name]? with
  | none =>
    { fnameFid := d.fnameFid.insert field.name (UInt8.ofNat d.fidField.length)
      fidField := d.fidField ++ [field]
      fnameField := d.fnameField.insert field.name field }
  | some fid =>
    { d with
      fidField := d.fidField.set fid.toNat field
      fnameField := d.fnameField.insert field.name field }

/-- `BaseDocT::GetField`, by name. -/
def getField (d : BaseDoc) (name : Bytes) : Option Field := d.fnameField[name]?

/-- `BaseDocT::GetField`, by id. -/
def getFieldAt (d : BaseDoc) (fid : UInt8) : Option Field :=
  if d.fidField.length ≤ fid.toNat then none else d.fidField[fid.toNat]?

/-- `BaseDocT::GetFieldId`. -/
def getFieldId (d : BaseDoc) (name : Bytes) : Option UInt8 := d.fnameFid[name]?

/-- A schema after these calls of `AddField`. -/
def ofFields (fields : List Field) : BaseDoc := fields.foldl addField new

/-! ### The format -/

/-- The loop of `DocSchemaT::Serialize`, with the ids it has visited. The counter is a `uint8_t`.
There is no result where the loop has not ended after that many turns. -/
def serializeLoop (d : BaseDoc) : Nat → UInt8 → Bytes → Option (List UInt8 × Bytes)
  | 0, _, _ => none
  | turns + 1, fid, serialized =>
    match d.fidField[fid.toNat]? with
    | none => some ([], serialized)
    | some field =>
      (serializeLoop d turns (fid + 1) (serialized ++ [fid] ++ field.serialize)).map fun r =>
        (fid :: r.1, r.2)

/-- `DocSchemaT::Serialize`. -/
def serialize (d : BaseDoc) (turns : Nat) : Option Bytes :=
  (d.serializeLoop turns 0 [UInt8.ofNat d.fidField.length]).map Prod.snd

/-- The loop of `DocSchemaT::Deserialize`. -/
def deserializeLoop : Nat → Bytes → BaseDoc → Option BaseDoc
  | 0, _, d => some d
  | _ + 1, [], _ => none
  | fieldsNum + 1, _ :: rest, d =>
    match Field.deserialize rest with
    | none => none
    | some (field, consumed) => deserializeLoop fieldsNum (rest.drop consumed) (d.addField field)

/-- `DocSchemaT::Deserialize`. -/
def deserialize : Bytes → BaseDoc → Option BaseDoc
  | [], _ => none
  | fieldsNum :: rest, d => deserializeLoop fieldsNum.toNat rest d

end BaseDoc

/-! ## What `AddField` does -/

/-- The names, in the order of the fields. -/
def BaseDoc.names (d : BaseDoc) : List Bytes := d.fidField.map Field.name

/-- Each field is known under its name, and no two have the same: the number of a name is its
place. -/
structure Numbered (d : BaseDoc) : Prop where
  nodup : d.names.Nodup
  id : ∀ name, d.fnameFid[name]? =
    if name ∈ d.names then some (UInt8.ofNat (d.names.idxOf name)) else none
  field : ∀ name f, d.fnameField[name]? = some f ↔ f ∈ d.fidField ∧ f.name = name

namespace BaseDoc

theorem addField_new {d : BaseDoc} {f : Field} (h : d.fnameFid[f.name]? = none) :
    d.addField f =
      { fnameFid := d.fnameFid.insert f.name (UInt8.ofNat d.fidField.length)
        fidField := d.fidField ++ [f]
        fnameField := d.fnameField.insert f.name f } := by
  rw [addField, h]

theorem addField_known {d : BaseDoc} {f : Field} {fid : UInt8} (h : d.fnameFid[f.name]? = some fid) :
    d.addField f =
      { d with
        fidField := d.fidField.set fid.toNat f
        fnameField := d.fnameField.insert f.name f } := by
  rw [addField, h]

theorem mem_fnameFid_addField (d : BaseDoc) (f : Field) (name : Bytes) :
    name ∈ (d.addField f).fnameFid ↔ name ∈ d.fnameFid ∨ name = f.name := by
  cases hfid : d.fnameFid[f.name]? with
  | none =>
    rw [addField_new hfid, ExtTreeMap.mem_insert, Std.compare_eq_iff_eq, or_comm, eq_comm]
  | some fid =>
    rw [addField_known hfid]
    refine ⟨.inl, ?_⟩
    rintro (h | rfl)
    · exact h
    · exact mem_iff_exists.mpr ⟨fid, hfid⟩

/-- There are as many fields as names. -/
theorem length_addField {d : BaseDoc} (h : d.fidField.length = d.fnameFid.size) (f : Field) :
    (d.addField f).fidField.length = (d.addField f).fnameFid.size := by
  cases hfid : d.fnameFid[f.name]? with
  | none =>
    rw [addField_new hfid]
    simp only [List.length_append, List.length_singleton]
    have hnot : ¬d.fnameFid.contains f.name = true := by
      rw [ExtTreeMap.contains_iff_mem]
      exact not_mem_iff.mpr hfid
    rw [ExtTreeMap.size_insert, if_neg hnot, h]
  | some fid =>
    rw [addField_known hfid]
    simp only [List.length_set]
    exact h

theorem ofFields_concat (fields : List Field) (f : Field) :
    ofFields (fields ++ [f]) = (ofFields fields).addField f := List.foldl_concat ..

theorem mem_fnameFid_ofFields (fields : List Field) (name : Bytes) :
    name ∈ (ofFields fields).fnameFid ↔ name ∈ fields.map Field.name := by
  induction fields using List.reverseRecOn with
  | nil => exact ⟨fun h => absurd h ExtTreeMap.not_mem_empty, fun h => absurd h List.not_mem_nil⟩
  | append_singleton fields f ih =>
    rw [ofFields_concat, mem_fnameFid_addField, ih, List.map_append, List.mem_append, List.map_singleton,
      List.mem_singleton]

/-- **The number of fields** is that of the names they were added under, whatever was replaced. -/
theorem length_ofFields (fields : List Field) :
    (ofFields fields).fidField.length = (fields.map Field.name).toFinset.card := by
  have hsize : (ofFields fields).fidField.length = (ofFields fields).fnameFid.size := by
    induction fields using List.reverseRecOn with
    | nil => rfl
    | append_singleton fields f ih =>
      rw [ofFields_concat]
      exact length_addField ih f
  rw [hsize, ← ExtTreeMap.length_keys, ← List.toFinset_card_of_nodup ExtTreeMap.nodup_keys]
  refine congrArg Finset.card (Finset.ext fun name => ?_)
  rw [List.mem_toFinset, List.mem_toFinset, ExtTreeMap.mem_keys, mem_fnameFid_ofFields]

end BaseDoc

/-- Replacing a field by one of its name takes out that one. -/
theorem mem_set_iff {l : List Field} (hnodup : (l.map Field.name).Nodup) {i : Nat} {old f : Field}
    (hi : l[i]? = some old) (hname : old.name = f.name) (g : Field) :
    g ∈ l.set i f ↔ g = f ∨ (g ∈ l ∧ g.name ≠ f.name) := by
  have hlt := (List.getElem?_eq_some_iff.mp hi).1
  have hplace : ∀ j g, l[j]? = some g → (g.name = f.name ↔ j = i) := by
    intro j g hj
    obtain ⟨hlt', hg⟩ := List.getElem?_eq_some_iff.mp hj
    have hold := (List.getElem?_eq_some_iff.mp hi).2
    have hinj := @List.Nodup.getElem_inj_iff _ _ hnodup j (by simpa using hlt') i (by simpa using hlt)
    rw [List.getElem_map, List.getElem_map, hg, hold, hname] at hinj
    exact hinj
  rw [List.mem_iff_getElem?]
  constructor
  · rintro ⟨j, hj⟩
    rw [List.getElem?_set] at hj
    split at hj
    · cases hj
      exact .inl rfl
    · rename_i hne
      refine .inr ⟨List.mem_of_getElem? hj, fun heq => hne ((hplace j g hj).mp heq).symm⟩
  · rintro (rfl | ⟨hmem, hne⟩)
    · exact ⟨i, List.getElem?_set_self hlt⟩
    · obtain ⟨j, hj⟩ := List.mem_iff_getElem?.mp hmem
      refine ⟨j, ?_⟩
      rw [List.getElem?_set_ne (fun heq => hne ((hplace j g hj).mpr heq.symm)), hj]

namespace Numbered

variable {d : BaseDoc}

theorem new : Numbered .new where
  nodup := List.nodup_nil
  id _ := rfl
  field name f := by simp [BaseDoc.new]

/-- The field a number of a name leads to. -/
theorem getElem?_of_id (h : Numbered d) (hlen : d.fidField.length ≤ 256) {name : Bytes} {fid : UInt8}
    (hfid : d.fnameFid[name]? = some fid) :
    ∃ f, d.fidField[fid.toNat]? = some f ∧ f.name = name := by
  rw [h.id] at hfid
  split at hfid
  · next hmem =>
    have hlt := List.idxOf_lt_length_of_mem hmem
    have hplace : fid.toNat = d.names.idxOf name := by
      rw [← Option.some_inj.mp hfid]
      rw [BaseDoc.names, List.length_map] at hlt
      exact UInt8.toNat_ofNat_of_lt' (Nat.lt_of_lt_of_le hlt hlen)
    have hget : d.names[fid.toNat]? = some name := by
      rw [hplace, List.getElem?_eq_getElem hlt, List.getElem_idxOf]
    rw [BaseDoc.names, List.getElem?_map, Option.map_eq_some_iff] at hget
    exact hget
  · cases hfid

/-- A field of a new name comes last. -/
theorem addNew (h : Numbered d) {f : Field} (hfid : d.fnameFid[f.name]? = none) :
    Numbered (d.addField f) := by
  have hnew : f.name ∉ d.names := by
    intro hmem
    rw [h.id, if_pos hmem] at hfid
    cases hfid
  have hnames : (d.addField f).names = d.names ++ [f.name] := by
    rw [BaseDoc.addField_new hfid, BaseDoc.names, List.map_append]
    rfl
  refine ⟨?_, fun name => ?_, fun name g => ?_⟩
  · rw [hnames, ← List.concat_eq_append]
    exact h.nodup.concat hnew
  · rw [hnames, BaseDoc.addField_new hfid, getElem?_insert_eq, h.id]
    by_cases hname : name = f.name
    · subst hname
      rw [if_pos rfl, if_pos (by simp), List.idxOf_append_of_notMem hnew]
      simp [BaseDoc.names]
    · rw [if_neg hname]
      by_cases hmem : name ∈ d.names
      · rw [if_pos hmem, if_pos (by simp [hmem]), List.idxOf_append_of_mem hmem]
      · rw [if_neg hmem, if_neg (by simp [hmem, hname])]
  · rw [BaseDoc.addField_new hfid, getElem?_insert_eq, List.mem_append, List.mem_singleton]
    by_cases hname : name = f.name
    · subst hname
      rw [if_pos rfl, Option.some_inj]
      constructor
      · rintro rfl
        exact ⟨.inr rfl, rfl⟩
      · rintro ⟨hg | rfl, heq⟩
        · exact absurd (heq ▸ List.mem_map_of_mem hg) hnew
        · rfl
    · rw [if_neg hname, h.field]
      refine and_congr_left fun heq => ⟨.inl, fun hg => hg.resolve_right ?_⟩
      rintro rfl
      exact hname heq.symm

/-- A field of a known name takes the place of the one that has it. -/
theorem addKnown (h : Numbered d) (hlen : d.fidField.length ≤ 256) {f : Field} {fid : UInt8}
    (hfid : d.fnameFid[f.name]? = some fid) : Numbered (d.addField f) := by
  obtain ⟨old, hold, hname⟩ := h.getElem?_of_id hlen hfid
  have hnames : (d.addField f).names = d.names := by
    rw [BaseDoc.addField_known hfid, BaseDoc.names, List.map_set, ← hname]
    obtain ⟨hlt, rfl⟩ := List.getElem?_eq_some_iff.mp hold
    rw [BaseDoc.names, ← List.getElem_map Field.name (h := by simpa using hlt)]
    exact List.set_getElem_self _
  refine ⟨?_, fun name => ?_, fun name g => ?_⟩
  · rw [hnames]
    exact h.nodup
  · rw [hnames, BaseDoc.addField_known hfid]
    exact h.id name
  · rw [BaseDoc.addField_known hfid, getElem?_insert_eq, mem_set_iff h.nodup hold hname]
    by_cases heq : name = f.name
    · subst heq
      rw [if_pos rfl, Option.some_inj]
      constructor
      · rintro rfl
        exact ⟨.inl rfl, rfl⟩
      · rintro ⟨rfl | ⟨-, hne⟩, heq⟩
        · rfl
        · exact absurd heq hne
    · rw [if_neg heq, h.field]
      refine and_congr_left ?_
      rintro rfl
      exact ⟨fun hg => .inr ⟨hg, heq⟩, fun hg => hg.elim (fun hf => absurd (hf ▸ rfl) heq) And.left⟩

/-- **A field is added.** -/
theorem addField (h : Numbered d) (hlen : d.fidField.length ≤ 256) (f : Field) :
    Numbered (d.addField f) := by
  cases hfid : d.fnameFid[f.name]? with
  | none => exact h.addNew hfid
  | some fid => exact h.addKnown hlen hfid

/-- **Every schema** with room for its names in a byte. -/
theorem ofFields {fields : List Field} (hnames : (fields.map Field.name).toFinset.card ≤ 256) :
    Numbered (.ofFields fields) := by
  induction fields using List.reverseRecOn with
  | nil => exact .new
  | append_singleton fields f ih =>
    have hle : (fields.map Field.name).toFinset.card ≤ 256 := by
      refine Nat.le_trans (Finset.card_le_card fun name hname => ?_) hnames
      rw [List.mem_toFinset] at hname ⊢
      rw [List.map_append]
      exact List.mem_append_left _ hname
    rw [BaseDoc.ofFields_concat]
    exact (ih hle).addField ((BaseDoc.length_ofFields fields).trans_le hle) f

end Numbered

/-! ## The loop of `Serialize` -/

namespace BaseDoc

/-- The fields as the format has them, with their numbers. -/
def fieldsFrom : UInt8 → List Field → Bytes
  | _, [] => []
  | fid, f :: fields => [fid] ++ f.serialize ++ fieldsFrom (fid + 1) fields

/-- The numbers of so many fields. -/
def idsFrom : UInt8 → List Field → List UInt8
  | _, [] => []
  | fid, _ :: fields => fid :: idsFrom (fid + 1) fields

theorem toNat_succ {fid : UInt8} (h : fid.toNat < 255) : (fid + 1).toNat = fid.toNat + 1 := by
  rw [UInt8.toNat_add]
  exact Nat.mod_eq_of_lt (by simpa using Nat.succ_lt_succ h)

theorem map_toNat_idsFrom : ∀ (fields : List Field) (fid : UInt8), fid.toNat + fields.length ≤ 255 →
    (idsFrom fid fields).map UInt8.toNat = List.range' fid.toNat fields.length := by
  intro fields
  induction fields with
  | nil => intro fid _; rfl
  | cons f fields ih =>
    intro fid hle
    rw [List.length_cons] at hle
    have hsucc : (fid + 1).toNat = fid.toNat + 1 := toNat_succ (by omega)
    rw [idsFrom, List.map_cons, ih (fid + 1) (by omega), hsucc, List.length_cons, List.range'_succ]

/-- **The loop ends** where the numbers of all fields are below 255. -/
theorem serializeLoop_eq {d : BaseDoc} (hlen : d.fidField.length ≤ 255) :
    ∀ (fields : List Field) {fid : UInt8} {turns : Nat} (bs : Bytes),
    d.fidField.drop fid.toNat = fields → fid.toNat ≤ d.fidField.length → fields.length < turns →
    d.serializeLoop turns fid bs = some (idsFrom fid fields, bs ++ fieldsFrom fid fields) := by
  intro fields
  induction fields with
  | nil =>
    intro fid turns bs hdrop _ hturns
    obtain ⟨turns, rfl⟩ := Nat.exists_eq_succ_of_ne_zero (Nat.ne_of_gt hturns)
    have hnone : d.fidField[fid.toNat]? = none :=
      List.getElem?_eq_none (List.drop_eq_nil_iff.mp hdrop)
    rw [serializeLoop, hnone, fieldsFrom, List.append_nil, idsFrom]
  | cons f fields ih =>
    intro fid turns bs hdrop hle hturns
    obtain ⟨turns, rfl⟩ := Nat.exists_eq_succ_of_ne_zero (Nat.ne_of_gt (Nat.zero_lt_of_lt hturns))
    have hsome : d.fidField[fid.toNat]? = some f := by
      rw [← List.head?_drop, hdrop, List.head?_cons]
    -- There is a field of this number, so the number is below 255 and does not wrap.
    have hlt := (List.getElem?_eq_some_iff.mp hsome).1
    have hsucc := toNat_succ (Nat.lt_of_lt_of_le hlt hlen)
    have hrest : d.fidField.drop (fid + 1).toNat = fields := by
      rw [hsucc, ← List.drop_drop, hdrop, List.drop_one, List.tail_cons]
    rw [serializeLoop, hsome]
    simp only
    rw [ih (bs ++ [fid] ++ f.serialize) hrest (by rw [hsucc]; exact hlt) (Nat.lt_of_succ_lt_succ hturns),
      Option.map_some, idsFrom, fieldsFrom]
    simp only [List.append_assoc]

/-- With 256 fields there is one for each value of the counter. -/
theorem serializeLoop_eq_none {d : BaseDoc} (hlen : 256 ≤ d.fidField.length) :
    ∀ (turns : Nat) (fid : UInt8) (bs : Bytes), d.serializeLoop turns fid bs = none := by
  intro turns
  induction turns with
  | zero => intro fid bs; rfl
  | succ turns ih =>
    intro fid bs
    -- Whatever the counter is, there is a field of that number.
    have hlt : fid.toNat < d.fidField.length := Nat.lt_of_lt_of_le (UInt8.toNat_lt fid) hlen
    rw [serializeLoop, List.getElem?_eq_getElem hlt]
    simp only
    rw [ih, Option.map_none]

/-- The loop of `Serialize` ends and has visited every field once, in order. -/
def SerializeEnds (d : BaseDoc) : Prop :=
  ∃ turns visited bs, d.serializeLoop turns 0 [UInt8.ofNat d.fidField.length] = some (visited, bs) ∧
    visited.map UInt8.toNat = List.range d.fidField.length

/-- **When `Serialize` ends**: exactly for the schemas with at most 255 names. The loop counts in a
`uint8_t` up to the number of fields, and no `uint8_t` gets to 256. Below, it visits each field once
and in order. -/
theorem serialize_ends_iff (fields : List Field) :
    (ofFields fields).SerializeEnds ↔ (fields.map Field.name).toFinset.card ≤ 255 := by
  rw [← length_ofFields]
  constructor
  · rintro ⟨turns, visited, bs, hrun, -⟩
    by_contra hnot
    rw [serializeLoop_eq_none (Nat.lt_of_not_le hnot)] at hrun
    cases hrun
  · intro hlen
    refine ⟨_, _, _, serializeLoop_eq hlen _ _ rfl (Nat.zero_le _) (Nat.lt_succ_self _), ?_⟩
    rw [map_toNat_idsFrom]
    · exact (List.range_eq_range' ).symm
    · simpa using hlen

/-- One field for every byte, named by it. -/
def byteFields : List Field := (List.range 256).map fun i => ⟨.long, [UInt8.ofNat i], []⟩

theorem nodup_byteFields : (byteFields.map Field.name).Nodup := by
  rw [byteFields, List.map_map]
  refine List.Nodup.map_on (fun i hi j hj heq => ?_) List.nodup_range
  rw [List.mem_range] at hi hj
  have hbyte := congrArg UInt8.toNat (List.singleton_inj.mp heq)
  rwa [UInt8.toNat_ofNat_of_lt' hi, UInt8.toNat_ofNat_of_lt' hj] at hbyte

/-- `Serialize` of a schema with these 256 fields never ends. -/
theorem not_serialize_ends : ¬ ∀ fields, (ofFields fields).SerializeEnds := by
  intro h
  obtain ⟨turns, visited, bs, hrun, -⟩ := h byteFields
  have hcount : 256 ≤ (ofFields byteFields).fidField.length := by
    rw [length_ofFields, List.toFinset_card_of_nodup nodup_byteFields, List.length_map, byteFields,
      List.length_map, List.length_range]
  rw [serializeLoop_eq_none hcount] at hrun
  cases hrun

end BaseDoc

/-! ## What is read back -/

namespace Field

/-- A field as it is read back: the format has no values. -/
def blank (f : Field) : Field := { f with value := [] }

theorem deserialize_serialize {f : Field} (hlen : f.name.length ≤ 255) (rest : Bytes) :
    deserialize (f.serialize ++ rest) = some (f.blank, f.serialize.length) := by
  have hsize : (UInt8.ofNat f.name.length).toNat = f.name.length :=
    UInt8.toNat_ofNat_of_lt' (Nat.lt_succ_of_le hlen)
  have htype : ofType f.kind.typeValue f.name = some f.blank := by
    obtain ⟨kind, name, value⟩ := f
    cases kind <;> rfl
  rw [serialize, List.append_assoc]
  simp only [List.cons_append, List.nil_append, deserialize, hsize, List.length_append,
    List.take_left, if_pos (Nat.le_add_right _ _), htype, Option.map_some]
  rw [List.length_cons, List.length_cons, Nat.add_comm 1 1, Nat.add_comm _ f.name.length]

end Field

namespace BaseDoc

/-- The loop of `Deserialize` adds the fields one by one. -/
theorem deserializeLoop_fieldsFrom : ∀ (fields : List Field) (fid : UInt8) (d : BaseDoc),
    (∀ f ∈ fields, f.name.length ≤ 255) →
    deserializeLoop fields.length (fieldsFrom fid fields) d =
      some ((fields.map Field.blank).foldl addField d) := by
  intro fields
  induction fields with
  | nil => intro fid d _; rfl
  | cons f fields ih =>
    intro fid d hlen
    rw [List.length_cons, fieldsFrom, List.append_assoc, List.cons_append, List.nil_append,
      deserializeLoop, Field.deserialize_serialize (hlen f List.mem_cons_self)]
    simp only
    rw [List.drop_left, ih (fid + 1) _ fun g hg => hlen g (List.mem_cons_of_mem _ hg), List.map_cons,
      List.foldl_cons]

/-- Fields of different names are all kept, in order. -/
theorem fidField_ofFields {fields : List Field} (hnodup : (fields.map Field.name).Nodup) :
    (ofFields fields).fidField = fields := by
  induction fields using List.reverseRecOn with
  | nil => rfl
  | append_singleton fields f ih =>
    rw [List.map_append, List.map_singleton] at hnodup
    obtain ⟨hfields, -, hdisjoint⟩ := List.nodup_append'.mp hnodup
    have hnew : (ofFields fields).fnameFid[f.name]? = none := by
      rw [← not_mem_iff, mem_fnameFid_ofFields]
      exact fun hmem => hdisjoint hmem (List.mem_singleton_self _)
    rw [ofFields_concat, addField_new hnew]
    exact congrArg (· ++ [f]) (ih hfields)

/-- Two schemas have the same numbers, names and types. -/
structure SameFields (d d' : BaseDoc) : Prop where
  length : d'.fidField.length = d.fidField.length
  field : ∀ fid, (d'.getFieldAt fid).map (fun f => (f.name, f.kind)) =
    (d.getFieldAt fid).map fun f => (f.name, f.kind)
  id : ∀ name, d'.getFieldId name = d.getFieldId name
  type : ∀ name, (d'.getField name).map Field.kind = (d.getField name).map Field.kind

/-- A schema that is read back. -/
theorem sameFields_blank {d : BaseDoc} (h : Numbered d) (hlen : d.fidField.length ≤ 256) :
    SameFields d (ofFields (d.fidField.map Field.blank)) := by
  have hnames : (d.fidField.map Field.blank).map Field.name = d.names := by
    rw [List.map_map]
    rfl
  have hnodup : ((d.fidField.map Field.blank).map Field.name).Nodup := hnames ▸ h.nodup
  have hfields := fidField_ofFields hnodup
  have hback : Numbered (ofFields (d.fidField.map Field.blank)) := by
    refine Numbered.ofFields ?_
    rw [← length_ofFields, hfields, List.length_map]
    exact hlen
  have hsame : (ofFields (d.fidField.map Field.blank)).names = d.names := by
    rw [names, hfields, hnames]
  refine ⟨by rw [hfields, List.length_map], fun fid => ?_, fun name => ?_, fun name => ?_⟩
  · rw [getFieldAt, getFieldAt, hfields, List.length_map]
    split
    · rfl
    · rw [List.getElem?_map, Option.map_map]
      rfl
  · rw [getFieldId, getFieldId, hback.id, h.id, hsame]
  -- By name: the fields are the same ones without their values.
  · have hread : ∀ f, d.getField name = some f →
        (ofFields (d.fidField.map Field.blank)).getField name = some f.blank := by
      intro f hf
      obtain ⟨hmem, hname⟩ := (h.field name f).mp hf
      refine (hback.field name f.blank).mpr ⟨?_, hname⟩
      rw [hfields]
      exact List.mem_map_of_mem hmem
    cases hf : d.getField name with
    | some f =>
      rw [hread f hf]
      rfl
    | none =>
      cases hg : (ofFields (d.fidField.map Field.blank)).getField name with
      | none => rfl
      | some g =>
        obtain ⟨hmem, hname⟩ := (hback.field name g).mp hg
        rw [hfields] at hmem
        obtain ⟨f, hf', rfl⟩ := List.mem_map.mp hmem
        have hsome := (h.field name f).mpr ⟨hf', hname⟩
        rw [show d.fnameField[name]? = d.getField name from rfl, hf] at hsome
        cases hsome

/-- **What is written is read back**, for every schema with at most 255 names of at most 255 bytes,
also where a field has replaced one of its name. Then the new field has the number of the old one,
and in the bytes too: reading gives out numbers in the order in which the fields come, and these
must be the numbers that they had. -/
theorem deserialize_ofFields (fields : List Field)
    (hnames : (fields.map Field.name).toFinset.card ≤ 255)
    (hlen : ∀ f ∈ fields, f.name.length ≤ 255) :
    ∃ bs d', (∀ turns, 256 ≤ turns → (ofFields fields).serialize turns = some bs) ∧
      deserialize bs new = some d' ∧ SameFields (ofFields fields) d' := by
  have hcount : (ofFields fields).fidField.length ≤ 255 :=
    (length_ofFields fields).trans_le hnames
  have hnumbered := Numbered.ofFields (Nat.le_succ_of_le hnames)
  -- Fields that were replaced have left their name, and no more.
  have hshort : ∀ f ∈ (ofFields fields).fidField, f.name.length ≤ 255 := by
    intro f hf
    have hknown : f.name ∈ (ofFields fields).fnameFid := by
      have hin : f.name ∈ (ofFields fields).names := List.mem_map_of_mem hf
      rw [ExtTreeMap.mem_iff_isSome_getElem?, hnumbered.id, if_pos hin]
      rfl
    obtain ⟨g, hg, hname⟩ := List.mem_map.mp ((mem_fnameFid_ofFields fields f.name).mp hknown)
    rw [← hname]
    exact hlen g hg
  refine ⟨[UInt8.ofNat (ofFields fields).fidField.length] ++ fieldsFrom 0 (ofFields fields).fidField,
    _, fun turns hturns => ?_, ?_, sameFields_blank hnumbered (Nat.le_succ_of_le hcount)⟩
  · rw [serialize, serializeLoop_eq hcount _ _ rfl (Nat.zero_le _)]
    · rfl
    · simpa using Nat.lt_of_le_of_lt hcount hturns
  · have hsize : (UInt8.ofNat (ofFields fields).fidField.length).toNat =
        (ofFields fields).fidField.length := UInt8.toNat_ofNat_of_lt' (Nat.lt_succ_of_le hcount)
    rw [List.cons_append, List.nil_append, deserialize, hsize]
    exact deserializeLoop_fieldsFrom _ 0 new hshort

/-- A schema of two fields, one of which has been replaced. -/
theorem deserialize_ofFields_replaced :
    ∃ bs d', (∀ turns, 256 ≤ turns → (ofFields [⟨.string, [97], [1]⟩, ⟨.long, [98], []⟩,
        ⟨.int, [97], [2]⟩]).serialize turns = some bs) ∧
      deserialize bs new = some d' ∧
      SameFields (ofFields [⟨.string, [97], [1]⟩, ⟨.long, [98], []⟩, ⟨.int, [97], [2]⟩]) d' :=
  deserialize_ofFields _ (by decide) (by decide)

end BaseDoc

end CxxLab.RocksdbLab.Document
