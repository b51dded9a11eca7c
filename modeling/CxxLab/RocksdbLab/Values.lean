import CxxLab.RocksdbLab.Schema
import CxxLab.Lib.Run

/-!
# The values of a document

`DocSchema` has a vector for each type of field. `values` is all four as one list, and a call of any
`Add…Field` is the addition of one name with one value to it (`Gains`). A document that conforms to
its schema is serialized to the map from the ids of its fields to their values
(`Doc.Typed.getElem?_serialize`).
-/

set_option autoImplicit false

namespace CxxLab.RocksdbLab

open Std CxxLab.Lib

/-! ## Values of fields -/

/-- The value of a field; floats are kept as their bits. -/
inductive Value where
  | long (v : Int64)
  | float (v : UInt32)
  | string (v : Bytes)
  | floatVector (v : List UInt32)
  deriving DecidableEq

namespace Value

def kind : Value → FieldKind
  | long _ => .long
  | float _ => .float
  | string _ => .string
  | floatVector _ => .floatVector

/-- `Serialize` of the field classes. -/
def serialize : Value → Bytes
  | long v => RocksdbLab.serialize v.toUInt64
  | float v => BigEndian.toBytes 4 v.toNat
  | string v => v
  | floatVector v => v.flatMap fun x => (BigEndian.toBytes 4 x.toNat).reverse

end Value

/-- The fields and their values, in the order of `Doc::Serialize`. -/
def DocSchema.values (s : DocSchema) : List (Bytes × Value) :=
  s.longFields.map (fun f => (f.1, .long f.2)) ++ s.floatFields.map (fun f => (f.1, .float f.2)) ++
    s.stringFields.map (fun f => (f.1, .string f.2)) ++
    s.floatVectorFields.map fun f => (f.1, .floatVector f.2)

/-- The value of a field. -/
def DocSchema.value (s : DocSchema) (name : Bytes) : Option Value := s.values.lookup name

namespace Doc

theorem serializedFields_eq (d : Doc) :
    d.serializedFields = d.values.map fun f => (f.1, f.2.serialize) := by
  simp [serializedFields, DocSchema.values, Value.serialize, Function.comp_def]

/-- A document that conforms to a schema, and has one value of the right type for each field. -/
structure Typed (d : Doc) (schema : DocSchema) : Prop extends d.Conforms schema where
  nodup : (d.values.map Prod.fst).Nodup
  kinds : ∀ f ∈ d.values, schema.fieldsSchema[f.1]? = some f.2.kind

instance (d : Doc) (schema : DocSchema) : Decidable (d.Typed schema) :=
  decidable_of_iff (d.Conforms schema ∧ (d.values.map Prod.fst).Nodup ∧
    ∀ f ∈ d.values, schema.fieldsSchema[f.1]? = some f.2.kind)
    ⟨fun ⟨h₁, h₂, h₃⟩ => ⟨h₁, h₂, h₃⟩, fun ⟨h₁, h₂, h₃⟩ => ⟨h₁, h₂, h₃⟩⟩

/-- `DocSchema::AddLongFieldValue`. It ends in the function of `DocSchema` that takes the field over,
which `Doc` does not override. -/
def addLongFieldValue (d : Doc) (name : Bytes) (value : Int64) : Doc :=
  { d.toDocSchema.addLongField name value with schema := d.schema }

/-- `DocSchema::AddFloatFieldValue`. -/
def addFloatFieldValue (d : Doc) (name : Bytes) (value : UInt32) : Doc :=
  { d.toDocSchema.addFloatField name value with schema := d.schema }

/-- `DocSchema::AddStringFieldValue`. -/
def addStringFieldValue (d : Doc) (name : Bytes) (value : Bytes) : Doc :=
  { d.toDocSchema.addStringField name value with schema := d.schema }

end Doc

/-! ## What a schema says of a field -/

/-- `DocSchema::GetFieldType`. -/
def DocSchema.getFieldType (s : DocSchema) (fid : UInt8) : Option UInt8 := s.fieldsIdType[fid.toNat]?

/-- `DocSchema::GetFieldName`, which asserts that there is one. -/
def DocSchema.getFieldName (s : DocSchema) (fid : UInt8) : Option Bytes := s.fieldsIdName[fid.toNat]?

namespace DocSchema

variable {s : DocSchema}

/-- Ids are not used twice as long as there are enough of them. -/
theorem getFieldId_inj (hs : s.fixed = true) (hsize : s.fieldsSchema.size ≤ 256) {name name' : Bytes}
    {fid : UInt8} (hname : s.getFieldId name = some fid) (hname' : s.getFieldId name' = some fid) :
    name = name' := by
  obtain ⟨i, kind, hi, rfl⟩ := (getFieldId_eq_some hs).mp hname
  obtain ⟨i', kind', hi', hsame⟩ := (getFieldId_eq_some hs).mp hname'
  have hlt := (List.getElem?_eq_some_iff.mp hi).1
  have hlt' := (List.getElem?_eq_some_iff.mp hi').1
  rw [ExtTreeMap.length_toList] at hlt hlt'
  have hnat := congrArg UInt8.toNat hsame
  rw [UInt8.toNat_ofNat', UInt8.toNat_ofNat', Nat.mod_eq_of_lt (by omega),
    Nat.mod_eq_of_lt (by omega)] at hnat
  subst hnat
  cases hi.symm.trans hi'
  rfl

/-- What a schema says of a field with an id. -/
theorem getField_of_id (hs : s.fixed = true) (hsize : s.fieldsSchema.size ≤ 256) {name : Bytes}
    {fid : UInt8} {kind : FieldKind} (hfid : s.getFieldId name = some fid)
    (hkind : s.fieldsSchema[name]? = some kind) :
    s.getFieldType fid = some kind.typeValue ∧ s.getFieldName fid = some name := by
  obtain ⟨i, kind', hi, rfl⟩ := (getFieldId_eq_some hs).mp hfid
  have hlt := (List.getElem?_eq_some_iff.mp hi).1
  rw [ExtTreeMap.length_toList] at hlt
  have hnat : (UInt8.ofNat i).toNat = i := UInt8.toNat_ofNat_of_lt' (Nat.lt_of_lt_of_le hlt hsize)
  have hsame := ExtTreeMap.mem_toList_iff_getElem?_eq_some.mp (List.mem_of_getElem? hi)
  cases hkind.symm.trans hsame
  constructor
  · rw [getFieldType, fieldsIdType_eq hs, hnat, List.getElem?_map, hi]
    rfl
  · rw [getFieldName, fieldsIdName_eq hs, hnat, List.getElem?_map, hi]
    rfl

theorem values_build (s : DocSchema) : s.build.values = s.values := by
  unfold build
  split <;> rfl

end DocSchema

/-! ## Adding a field -/

/-- `Add…Field`, by the type of the value. -/
def DocSchema.add (s : DocSchema) (name : Bytes) : Value → DocSchema
  | .long v => s.addLongField name v
  | .float v => s.addFloatField name v
  | .string v => s.addStringField name v
  | .floatVector v => s.addFloatVectorField name v

namespace DocSchema

variable {s : DocSchema}

theorem add_of_mem {name : Bytes} (hname : name ∈ s.fieldsSchema) (v : Value) : s.add name v = s := by
  have henter : ∀ kind, s.enter name kind = none := by simp [enter, preAddCheck, hname]
  cases v <;> simp [add, addLongField, addFloatField, addStringField, addFloatVectorField, henter]

/-- A first one is. -/
theorem add_of_not_mem (hs : s.fixed = false) {name : Bytes} (hname : name ∉ s.fieldsSchema)
    (v : Value) : (s.add name v).fixed = false ∧
      (s.add name v).fieldsSchema = s.fieldsSchema.insert name v.kind ∧
      (s.add name v).values.Perm ((name, v) :: s.values) := by
  have hcheck : s.preAddCheck name = true := by simp [preAddCheck, hs, hname]
  cases v with
  | long v =>
    simp only [add, addLongField, enter, hcheck, dite_true, Value.kind, hs, values, List.map_append,
      List.map_cons, List.map_nil, List.append_assoc, true_and, List.cons_append, List.nil_append]
    exact List.perm_middle
  | float v =>
    simp only [add, addFloatField, enter, hcheck, dite_true, Value.kind, hs, values, List.map_append,
      List.map_cons, List.map_nil, List.append_assoc, true_and, List.cons_append, List.nil_append]
    rw [← List.append_assoc, ← List.append_assoc]
    exact List.perm_middle
  | string v =>
    simp only [add, addStringField, enter, hcheck, dite_true, Value.kind, hs, values, List.map_append,
      List.map_cons, List.map_nil, true_and]
    rw [← List.append_assoc, List.append_assoc]
    exact List.perm_middle
  | floatVector v =>
    simp only [add, addFloatVectorField, enter, hcheck, dite_true, Value.kind, hs, values,
      List.map_append, List.map_cons, List.map_nil, true_and]
    rw [← List.append_assoc]
    exact List.perm_append_singleton _ _

end DocSchema

/-- A document gets a value for a field, unless it has one. -/
structure Gains (d : Doc) (name : Bytes) (v : Value) (d' : Doc) : Prop where
  opened : d'.fixed = false
  schema : d'.schema = d.schema
  fields : ∀ n, n ∈ d'.fieldsSchema ↔ n = name ∨ n ∈ d.fieldsSchema
  kept : ∀ f ∈ d.values, f ∈ d'.values
  values : ∀ f ∈ d'.values, f ∈ d.values ∨ f = (name, v)
  own : name ∈ d.fieldsSchema ∨ (name, v) ∈ d'.values

namespace Gains

variable {d : Doc} {name : Bytes}

/-- **Whatever the type of the value.** -/
theorem add (hopen : d.fixed = false) (v : Value) :
    Gains d name v { d.toDocSchema.add name v with schema := d.schema } := by
  by_cases hname : name ∈ d.fieldsSchema
  · rw [DocSchema.add_of_mem hname]
    exact {
      opened := hopen
      schema := rfl
      fields := fun _ => ⟨.inr, fun h => h.elim (fun heq => heq ▸ hname) id⟩
      kept := fun _ hf => hf
      values := fun _ hf => .inl hf
      own := .inl hname }
  · obtain ⟨hopened, hfields, hvalues⟩ := DocSchema.add_of_not_mem hopen hname v
    have hmem : ∀ f, f ∈ (d.toDocSchema.add name v).values ↔ f = (name, v) ∨ f ∈ d.values :=
      fun f => hvalues.mem_iff.trans List.mem_cons
    refine ⟨hopened, rfl, fun n => ?_, fun f hf => (hmem f).mpr (.inr hf),
      fun f hf => ((hmem f).mp hf).symm, .inr ((hmem _).mpr (.inl rfl))⟩
    show n ∈ (d.toDocSchema.add name v).fieldsSchema ↔ _
    rw [hfields, ExtTreeMap.mem_insert, Std.compare_eq_iff_eq, eq_comm]

theorem new (pk : Int64) (schema : DocSchema) :
    Gains { DocSchema.new with schema := schema } primaryKeyName (.long pk) (Doc.new pk schema) :=
  add rfl (.long pk)

end Gains

/-! ## Documents with a value for each field -/

namespace Doc.Typed

variable {d : Doc} {schema : DocSchema} (h : d.Typed schema)
include h

theorem value_eq_some {name : Bytes} {v : Value} : d.value name = some v ↔ (name, v) ∈ d.values := by
  constructor
  · intro hv
    obtain ⟨l₁, l₂, hl, -⟩ := List.lookup_eq_some_iff.mp hv
    rw [hl]
    simp
  · intro hmem
    cases hv : d.value name with
    | none =>
      have hne := List.lookup_eq_none_iff.mp hv _ hmem
      simp at hne
    | some w =>
      obtain ⟨l₁, l₂, hl, -⟩ := List.lookup_eq_some_iff.mp hv
      have hw : (name, w) ∈ d.values := by
        rw [hl]
        simp
      cases List.inj_on_of_nodup_map h.nodup hw hmem rfl
      rfl

theorem exists_value_of_mem {name : Bytes} (hin : name ∈ schema.fieldsSchema.keys) :
    ∃ v, (name, v) ∈ d.values := by
  have hmem := h.complete name hin
  rw [serializedFields_eq, List.map_map, List.mem_map] at hmem
  obtain ⟨⟨name', v⟩, hv, rfl⟩ := hmem
  exact ⟨v, hv⟩

theorem exists_value_of_kind {name : Bytes} {kind : FieldKind}
    (hkind : schema.fieldsSchema[name]? = some kind) : ∃ v, (name, v) ∈ d.values ∧ v.kind = kind := by
  obtain ⟨v, hv⟩ := h.exists_value_of_mem (ExtTreeMap.mem_keys.mpr (mem_iff_exists.mpr ⟨kind, hkind⟩))
  exact ⟨v, hv, Option.some_inj.mp ((h.kinds _ hv).symm.trans hkind)⟩

/-- Every id has its field. -/
theorem exists_value (hfixed : schema.fixed = true) {fid : UInt8}
    (hfid : fid.toNat < schema.fieldsSchema.size) :
    ∃ name v, schema.getFieldId name = some fid ∧ (name, v) ∈ d.values := by
  obtain ⟨name, hname⟩ := (DocSchema.exists_fieldId_iff hfixed).mpr hfid
  obtain ⟨i, kind, hi, -⟩ := (DocSchema.getFieldId_eq_some hfixed).mp hname
  have hin : name ∈ schema.fieldsSchema.keys := by
    rw [← ExtTreeMap.map_fst_toList_eq_keys]
    exact List.mem_map_of_mem (f := Prod.fst) (List.mem_of_getElem? hi)
  obtain ⟨v, hv⟩ := h.exists_value_of_mem hin
  exact ⟨name, v, hname, hv⟩

/-- **What is filed under the id of a field is its value.** -/
theorem getElem?_serialize (hfixed : schema.fixed = true) (hsize : schema.fieldsSchema.size ≤ 256)
    {m : ExtTreeMap UInt8 Bytes} (hm : d.serialize = some m) {name : Bytes} {v : Value} {fid : UInt8}
    (hv : (name, v) ∈ d.values) (hfid : schema.getFieldId name = some fid) :
    m[fid]? = some v.serialize := by
  -- A later field with the same id would have the same name, and there is only one of it.
  have hloop := foldlM_collect (f := fun (serialized : ExtTreeMap UInt8 Bytes) (f : Bytes × Bytes) => do
      let fid ← d.schema.getFieldId f.1
      return serialized.insert fid f.2)
    (I := fun _ => True) (P := fun f => f ∈ d.serializedFields)
    (D := fun m f => f ∈ d.serializedFields ∧ ∃ fid, schema.getFieldId f.1 = some fid ∧
      m[fid]? = some f.2)
    (fun m f _ hf => by
      obtain ⟨fid, hknown⟩ := h.exists_fieldId hfixed hf
      have hfid : schema.getFieldId f.1 = some fid := (h.getFieldId_eq f.1).symm.trans hknown
      refine ⟨m.insert fid f.2, by rw [hknown]; rfl, trivial, ⟨hf, fid, hfid, ?_⟩, ?_⟩
      · rw [getElem?_insert_eq, if_pos rfl]
      · rintro g ⟨hg, fid', hfid', hval⟩
        refine ⟨hg, fid', hfid', ?_⟩
        rw [getElem?_insert_eq]
        split
        · next heq =>
          subst heq
          have hname := DocSchema.getFieldId_inj hfixed hsize hfid hfid'
          rw [serializedFields_eq, List.mem_map] at hf hg
          obtain ⟨f, hf, rfl⟩ := hf
          obtain ⟨g, hg, rfl⟩ := hg
          cases List.inj_on_of_nodup_map h.nodup hf hg hname
          rfl
        · exact hval)
    (s := ∅) trivial fun f (hf : f ∈ d.serializedFields) => hf
  obtain ⟨m', hrun, -, hall, -⟩ := hloop
  cases hm.symm.trans hrun
  have hmem : (name, v.serialize) ∈ d.serializedFields := by
    rw [serializedFields_eq]
    exact List.mem_map_of_mem (f := fun f : Bytes × Value => (f.1, f.2.serialize)) hv
  obtain ⟨-, fid', hfid', hval⟩ := hall _ hmem
  cases hfid.symm.trans hfid'
  exact hval

end Doc.Typed

end CxxLab.RocksdbLab
