import CxxLab.RocksdbLab.Keys
import Mathlib.Data.List.Induction
import Mathlib.Data.List.Nodup

/-!
# `rocksdb_lab/doc.h` — schemas and documents

A `DocSchema` collects fields by name until it is built; `Build` numbers them in the order of their
names. A `Doc` is a schema of its own, whose fields have values, and points to the schema it was
made for: `Doc::Serialize` files each value under the number that schema has for its name.

Field numbers are `uint8_t`, and so are the counts and lengths in a serialized schema. What is read
back is the schema that was written as long as these fit: `deserialize_serialize`.

Floats are kept as their bits. Attributes of single fields (read-only, limits and so on) and the
position of a field in its vector are left out.
-/

set_option autoImplicit false

namespace CxxLab.RocksdbLab

open Std CxxLab.Lib

/-- The field classes, `LongFieldIdx` and so on. -/
inductive FieldKind where
  | long
  | string
  | float
  | floatVector
  deriving DecidableEq

/-- `FieldTypeValue`. -/
def FieldKind.typeValue : FieldKind → UInt8
  | long => 1
  | float => 2
  | string => 3
  | floatVector => 4

/-- `"_id"`. -/
def primaryKeyName : Bytes := [95, 105, 100]

/-! ## Schemas -/

/-- The maps `Build` fills. -/
structure Numbering where
  fieldsNameId : ExtTreeMap Bytes UInt8
  fieldsIdName : List Bytes
  fieldsIdType : List UInt8

namespace Numbering

/-- One turn of the loop of `DocSchema::Build`. -/
def add (acc : Numbering × UInt8) (field : Bytes × FieldKind) : Numbering × UInt8 :=
  ({ fieldsNameId := acc.1.fieldsNameId.insert field.1 acc.2
     fieldsIdName := acc.1.fieldsIdName ++ [field.1]
     fieldsIdType := acc.1.fieldsIdType ++ [field.2.typeValue] }, acc.2 + 1)

/-- The loop of `DocSchema::Build`. -/
def ofFields (fields : List (Bytes × FieldKind)) : Numbering :=
  (fields.foldl add (⟨∅, [], []⟩, 0)).1

end Numbering

/-- `DocSchema`. The numbering of a built schema is that of its fields: nothing is added to it any
more. -/
structure DocSchema extends Numbering where
  fieldsSchema : ExtTreeMap Bytes FieldKind
  longFields : List (Bytes × Int64)
  floatFields : List (Bytes × UInt32)
  stringFields : List (Bytes × Bytes)
  floatVectorFields : List (Bytes × List UInt32)
  fixed : Bool
  numbered : fixed = true → toNumbering = Numbering.ofFields fieldsSchema.toList

namespace DocSchema

/-- `DocSchema::DocSchema()`. -/
def new : DocSchema where
  fieldsNameId := ∅
  fieldsIdName := []
  fieldsIdType := []
  fieldsSchema := ∅
  longFields := []
  floatFields := []
  stringFields := []
  floatVectorFields := []
  fixed := false
  numbered := by simp

/-- The copy constructor, which forgets the float vectors. -/
def copy (s : DocSchema) : DocSchema := { s with floatVectorFields := [] }

/-- `DocSchema::PreAddCheck`. -/
def preAddCheck (s : DocSchema) (name : Bytes) : Bool := !s.fixed && !decide (name ∈ s.fieldsSchema)

/-- What the four `Add…Field` have in common: the new field is checked and entered. -/
def enter (s : DocSchema) (name : Bytes) (kind : FieldKind) : Option DocSchema :=
  if h : s.preAddCheck name then
    some { s with
      fieldsSchema := s.fieldsSchema.insert name kind
      numbered := fun hfixed => by simp [preAddCheck, hfixed] at h }
  else none

/-- `DocSchema::AddLongField`. -/
def addLongField (s : DocSchema) (name : Bytes) (value : Int64) : DocSchema :=
  match s.enter name .long with
  | none => s
  | some s => { s with longFields := s.longFields ++ [(name, value)] }

/-- `DocSchema::AddFloatField`. -/
def addFloatField (s : DocSchema) (name : Bytes) (value : UInt32) : DocSchema :=
  match s.enter name .float with
  | none => s
  | some s => { s with floatFields := s.floatFields ++ [(name, value)] }

/-- `DocSchema::AddStringField`. -/
def addStringField (s : DocSchema) (name : Bytes) (value : Bytes) : DocSchema :=
  match s.enter name .string with
  | none => s
  | some s => { s with stringFields := s.stringFields ++ [(name, value)] }

/-- `DocSchema::AddFloatVectorField`. -/
def addFloatVectorField (s : DocSchema) (name : Bytes) (value : List UInt32) : DocSchema :=
  match s.enter name .floatVector with
  | none => s
  | some s => { s with floatVectorFields := s.floatVectorFields ++ [(name, value)] }

/-- `DocSchema::Build`. -/
def build (s : DocSchema) : DocSchema :=
  if s.fixed then s
  else { s with
    toNumbering := Numbering.ofFields s.fieldsSchema.toList
    fixed := true
    numbered := fun _ => rfl }

/-- `DocSchema::GetFieldId`. -/
def getFieldId (s : DocSchema) (name : Bytes) : Option UInt8 := s.fieldsNameId[name]?

/-! ### The format of a schema -/

/-- `DocSchemaSerializerHandler::Handle`. -/
def serializeField (s : DocSchema) (field : Bytes × FieldKind) : Bytes :=
  [(s.getFieldId field.1).getD 0, field.2.typeValue, UInt8.ofNat field.1.length] ++ field.1

/-- `DocSchema::Serialize`. -/
def serialize (s : DocSchema) : Bytes :=
  if s.fixed then
    UInt8.ofNat s.fieldsSchema.size :: s.fieldsSchema.toList.flatMap s.serializeField
  else []

/-- The field a type value calls for, without a value. -/
def addTyped (s : DocSchema) (type : UInt8) (name : Bytes) : DocSchema :=
  if type = FieldKind.long.typeValue then s.addLongField name 0
  else if type = FieldKind.string.typeValue then s.addStringField name []
  else if type = FieldKind.float.typeValue then s.addFloatField name 0
  else if type = FieldKind.floatVector.typeValue then s.addFloatVectorField name []
  else s

/-- The loop of `DocSchema::Deserialize`. There is no result where it reads past the end. -/
def deserializeFields : Nat → Bytes → DocSchema → Option DocSchema
  | 0, _, s => some s
  | n + 1, _ :: type :: size :: rest, s =>
    if size.toNat ≤ rest.length then
      deserializeFields n (rest.drop size.toNat) (s.addTyped type (rest.take size.toNat))
    else none
  | _ + 1, _, _ => none

/-- `DocSchema::Deserialize`, into a new schema. -/
def deserialize : Bytes → Option DocSchema
  | [] => none
  | fieldsNum :: rest => (deserializeFields fieldsNum.toNat rest new).map build

end DocSchema

/-! ## Documents -/

/-- `Doc`: its own fields, and the schema they are numbered by. -/
structure Doc extends DocSchema where
  schema : DocSchema

namespace Doc

/-- `Doc::Doc`. -/
def new (pk : Int64) (schema : DocSchema) : Doc :=
  { DocSchema.new.addLongField primaryKeyName pk with schema := schema }

/-- `Doc::Build`. -/
def build (d : Doc) : Bool × Doc :=
  if d.fieldsSchema.size ≠ d.schema.fieldsSchema.size then (false, d)
  else (true, { d.toDocSchema.build with schema := d.schema })

/-- The fields in the order in which `Doc::Serialize` goes through them, each with its own
`Serialize`. A vector of floats is copied as it lies in memory, least significant byte first. -/
def serializedFields (d : Doc) : List (Bytes × Bytes) :=
  d.longFields.map (fun f => (f.1, RocksdbLab.serialize f.2.toUInt64)) ++
    d.floatFields.map (fun f => (f.1, BigEndian.toBytes 4 f.2.toNat)) ++
    d.stringFields ++
    d.floatVectorFields.map fun f =>
      (f.1, f.2.flatMap fun x => (BigEndian.toBytes 4 x.toNat).reverse)

/-- `Doc::Serialize`. There is no result where the schema does not know a field: its id is then
not initialised. -/
def serialize (d : Doc) : Option (ExtTreeMap UInt8 Bytes) :=
  d.serializedFields.foldlM (fun serialized f => do
    let fid ← d.schema.getFieldId f.1
    return serialized.insert fid f.2) ∅

/-- A built document that has exactly the fields of a schema. -/
structure Conforms (d : Doc) (schema : DocSchema) : Prop where
  built : d.fixed = true
  sameIds : d.schema.fieldsNameId = schema.fieldsNameId
  known : ∀ f ∈ d.serializedFields, f.1 ∈ schema.fieldsSchema
  complete : ∀ name ∈ schema.fieldsSchema.keys, name ∈ d.serializedFields.map Prod.fst

instance (d : Doc) (schema : DocSchema) : Decidable (d.Conforms schema) :=
  decidable_of_iff (d.fixed = true ∧ d.schema.fieldsNameId = schema.fieldsNameId ∧
    (∀ f ∈ d.serializedFields, f.1 ∈ schema.fieldsSchema) ∧
    ∀ name ∈ schema.fieldsSchema.keys, name ∈ d.serializedFields.map Prod.fst)
    ⟨fun ⟨h₁, h₂, h₃, h₄⟩ => ⟨h₁, h₂, h₃, h₄⟩, fun ⟨h₁, h₂, h₃, h₄⟩ => ⟨h₁, h₂, h₃, h₄⟩⟩

end Doc

/-! ## Numbers -/

theorem nodup_names {β : Type} (m : ExtTreeMap Bytes β) : (m.toList.map Prod.fst).Nodup := by
  rw [ExtTreeMap.map_fst_toList_eq_keys]
  exact ExtTreeMap.nodup_keys

theorem mem_names {β : Type} {m : ExtTreeMap Bytes β} {name : Bytes} :
    name ∈ m.toList.map Prod.fst ↔ name ∈ m := by
  rw [ExtTreeMap.map_fst_toList_eq_keys, ExtTreeMap.mem_keys]

namespace Numbering

/-- **Fields are numbered from 0**, modulo 256. -/
theorem foldl_add {fields : List (Bytes × FieldKind)} (hnodup : (fields.map Prod.fst).Nodup) :
    (fields.foldl add (⟨∅, [], []⟩, 0)).2 = UInt8.ofNat fields.length ∧
      (∀ i f, fields[i]? = some f → (ofFields fields).fieldsNameId[f.1]? = some (UInt8.ofNat i)) ∧
      ∀ name, name ∈ (ofFields fields).fieldsNameId ↔ name ∈ fields.map Prod.fst := by
  induction fields using List.reverseRecOn with
  | nil => simp [ofFields]
  | append_singleton fields f ih =>
    rw [List.map_append, List.nodup_append] at hnodup
    obtain ⟨hcount, hids, hmem⟩ := ih hnodup.1
    have hnew : ∀ g ∈ fields, g.1 ≠ f.1 := fun g hg =>
      hnodup.2.2 g.1 (List.mem_map_of_mem hg) f.1 (by simp)
    have hmap : (ofFields (fields ++ [f])).fieldsNameId =
        (ofFields fields).fieldsNameId.insert f.1 (UInt8.ofNat fields.length) := by
      rw [ofFields, List.foldl_concat, add, hcount]
      rfl
    rw [List.foldl_concat, add, hcount, hmap]
    refine ⟨?_, fun i g hg => ?_, fun name => ?_⟩
    · rw [List.length_append, List.length_singleton, UInt8.ofNat_add]
      rfl
    · rw [ExtTreeMap.getElem?_insert]
      rcases Nat.lt_or_ge i fields.length with hi | hi
      · rw [List.getElem?_append_left hi] at hg
        have hne := hnew g (List.mem_of_getElem? hg)
        rw [if_neg (by rw [Std.compare_eq_iff_eq]; exact hne.symm)]
        exact hids i g hg
      · rw [List.getElem?_append_right hi, List.getElem?_singleton] at hg
        split at hg
        · cases hg
          rw [if_pos Std.compare_self]
          exact congrArg _ (congrArg _ (by omega))
        · cases hg
    · rw [ExtTreeMap.mem_insert, Std.compare_eq_iff_eq, hmem, List.map_append, List.mem_append]
      simp only [List.map_cons, List.map_nil, List.mem_singleton]
      exact ⟨fun h => h.elim (fun h => .inr h.symm) .inl, fun h => h.elim .inr fun h => .inl h.symm⟩

/-- The vectors have one entry for each field, in order. -/
theorem foldl_add_lists (fields : List (Bytes × FieldKind)) (acc : Numbering × UInt8) :
    (fields.foldl add acc).1.fieldsIdName = acc.1.fieldsIdName ++ fields.map Prod.fst ∧
      (fields.foldl add acc).1.fieldsIdType =
        acc.1.fieldsIdType ++ fields.map fun f => f.2.typeValue := by
  induction fields generalizing acc with
  | nil => simp
  | cons f fields ih =>
    obtain ⟨hnames, htypes⟩ := ih (add acc f)
    rw [List.foldl_cons, hnames, htypes]
    simp [add]

end Numbering

namespace DocSchema

variable {s : DocSchema}

theorem fieldsIdName_eq (hs : s.fixed = true) : s.fieldsIdName = s.fieldsSchema.toList.map Prod.fst := by
  rw [s.numbered hs]
  exact (Numbering.foldl_add_lists _ _).1

theorem fieldsIdType_eq (hs : s.fixed = true) :
    s.fieldsIdType = s.fieldsSchema.toList.map fun f => f.2.typeValue := by
  rw [s.numbered hs]
  exact (Numbering.foldl_add_lists _ _).2

theorem mem_fieldsNameId (hs : s.fixed = true) {name : Bytes} :
    name ∈ s.fieldsNameId ↔ name ∈ s.fieldsSchema := by
  rw [s.numbered hs, (Numbering.foldl_add (nodup_names _)).2.2, mem_names]

/-- The id of a field is its place, modulo 256. -/
theorem getFieldId_eq_some (hs : s.fixed = true) {name : Bytes} {fid : UInt8} :
    s.getFieldId name = some fid ↔
      ∃ i kind, s.fieldsSchema.toList[i]? = some (name, kind) ∧ UInt8.ofNat i = fid := by
  obtain ⟨-, hids, hmem⟩ := Numbering.foldl_add (nodup_names s.fieldsSchema)
  rw [← s.numbered hs] at hids hmem
  constructor
  · intro hname
    have hin : name ∈ s.fieldsNameId := mem_iff_exists.mpr ⟨fid, hname⟩
    obtain ⟨⟨name', kind⟩, hf, rfl⟩ := List.mem_map.mp ((hmem name).mp hin)
    obtain ⟨i, hi⟩ := List.mem_iff_getElem?.mp hf
    exact ⟨i, kind, hi, Option.some_inj.mp ((hids i _ hi).symm.trans hname)⟩
  · rintro ⟨i, kind, hi, rfl⟩
    exact hids i _ hi

/-- **The ids in use** are those below the number of fields. -/
theorem exists_fieldId_iff (hs : s.fixed = true) {fid : UInt8} :
    (∃ name, s.getFieldId name = some fid) ↔ fid.toNat < s.fieldsSchema.size := by
  rw [← ExtTreeMap.length_toList]
  constructor
  · rintro ⟨name, hname⟩
    obtain ⟨i, kind, hi, rfl⟩ := (getFieldId_eq_some hs).mp hname
    have hlt := (List.getElem?_eq_some_iff.mp hi).1
    rw [UInt8.toNat_ofNat']
    exact Nat.lt_of_le_of_lt (Nat.mod_le _ _) hlt
  · intro hlt
    exact ⟨_, (getFieldId_eq_some hs).mpr
      ⟨fid.toNat, _, List.getElem?_eq_getElem hlt, UInt8.ofNat_toNat⟩⟩

end DocSchema

namespace Doc

/-- The loop of `Doc::Serialize` over fields the schema knows. -/
theorem foldlM_serialize (schema : DocSchema) {fields : List (Bytes × Bytes)}
    (hknown : ∀ f ∈ fields, ∃ fid, schema.getFieldId f.1 = some fid) (m : ExtTreeMap UInt8 Bytes) :
    ∃ m', fields.foldlM (fun serialized f => do
        let fid ← schema.getFieldId f.1
        return serialized.insert fid f.2) m = some m' ∧
      ∀ fid, fid ∈ m' ↔ fid ∈ m ∨ ∃ f ∈ fields, schema.getFieldId f.1 = some fid := by
  induction fields generalizing m with
  | nil => exact ⟨m, rfl, by simp⟩
  | cons f fields ih =>
    obtain ⟨fid, hfid⟩ := hknown f List.mem_cons_self
    obtain ⟨m', hrun, hmem⟩ := ih (fun g hg => hknown g (List.mem_cons_of_mem _ hg)) (m.insert fid f.2)
    refine ⟨m', ?_, fun k => ?_⟩
    · rw [List.foldlM_cons, hfid]
      exact hrun
    · rw [hmem, ExtTreeMap.mem_insert, Std.compare_eq_iff_eq]
      constructor
      · rintro ((rfl | hk) | ⟨g, hg, hk⟩)
        · exact .inr ⟨f, List.mem_cons_self, hfid⟩
        · exact .inl hk
        · exact .inr ⟨g, List.mem_cons_of_mem _ hg, hk⟩
      · rintro (hk | ⟨g, hg, hk⟩)
        · exact .inl (.inr hk)
        · rcases List.mem_cons.mp hg with rfl | hg
          · rw [hfid] at hk
            exact .inl (.inl (Option.some_inj.mp hk))
          · exact .inr ⟨g, hg, hk⟩

theorem Conforms.getFieldId_eq {d : Doc} {schema : DocSchema} (h : d.Conforms schema) (name : Bytes) :
    d.schema.getFieldId name = schema.getFieldId name := by
  rw [DocSchema.getFieldId, h.sameIds]
  rfl

theorem Conforms.exists_fieldId {d : Doc} {schema : DocSchema} (h : d.Conforms schema)
    (hs : schema.fixed = true) {f : Bytes × Bytes} (hf : f ∈ d.serializedFields) :
    ∃ fid, d.schema.getFieldId f.1 = some fid := by
  rw [h.getFieldId_eq]
  exact mem_iff_exists.mp ((DocSchema.mem_fieldsNameId hs).mpr (h.known f hf))

/-- **A conforming document is serialized** under exactly the ids of its schema. -/
theorem Conforms.serialize {d : Doc} {schema : DocSchema} (h : d.Conforms schema)
    (hs : schema.fixed = true) :
    ∃ m, d.serialize = some m ∧ ∀ fid, fid ∈ m ↔ fid.toNat < schema.fieldsSchema.size := by
  obtain ⟨m, hrun, hmem⟩ := foldlM_serialize d.schema (fun _ hf => h.exists_fieldId hs hf) ∅
  refine ⟨m, hrun, fun fid => ?_⟩
  rw [hmem, ← DocSchema.exists_fieldId_iff hs]
  constructor
  · rintro (hk | ⟨f, -, hk⟩)
    · exact absurd hk ExtTreeMap.not_mem_empty
    · exact ⟨f.1, h.getFieldId_eq f.1 ▸ hk⟩
  · rintro ⟨name, hname⟩
    have hin : name ∈ schema.fieldsSchema :=
      (DocSchema.mem_fieldsNameId hs).mp (mem_iff_exists.mpr ⟨fid, hname⟩)
    obtain ⟨f, hf, rfl⟩ := List.mem_map.mp (h.complete name (ExtTreeMap.mem_keys.mpr hin))
    exact .inr ⟨f, hf, (h.getFieldId_eq f.1).trans hname⟩

end Doc

/-! ## The format is read back -/

/-- A map is made from its entries. -/
theorem insertMany_toList {β : Type} (m : ExtTreeMap Bytes β) :
    (∅ : ExtTreeMap Bytes β).insertMany m.toList = m := by
  refine ExtTreeMap.ext_getElem? fun k => ?_
  cases hk : m[k]? with
  | some v =>
    exact ExtTreeMap.getElem?_insertMany_list_of_mem Std.compare_self ExtTreeMap.distinct_keys_toList
      (ExtTreeMap.mem_toList_iff_getElem?_eq_some.mpr hk)
  | none =>
    have hnot : k ∉ m.toList.map Prod.fst := by
      rw [mem_names, ExtTreeMap.mem_iff_isSome_getElem?, hk]
      exact Bool.false_ne_true
    rw [ExtTreeMap.getElem?_insertMany_list_of_contains_eq_false (by simpa using hnot)]
    exact ExtTreeMap.getElem?_empty

namespace DocSchema

theorem addTyped_of_new {s : DocSchema} (hs : s.fixed = false) {name : Bytes}
    (hname : name ∉ s.fieldsSchema) (kind : FieldKind) :
    (s.addTyped kind.typeValue name).fixed = false ∧
      (s.addTyped kind.typeValue name).fieldsSchema = s.fieldsSchema.insert name kind := by
  have hcheck : s.preAddCheck name = true := by simp [preAddCheck, hs, hname]
  cases kind <;>
    simp [addTyped, FieldKind.typeValue, addLongField, addStringField, addFloatField,
      addFloatVectorField, enter, hcheck, hs]

/-- The loop of `Deserialize` reads the fields one by one, and nothing behind them. -/
theorem deserializeFields_flatMap (s : DocSchema) :
    ∀ (fields : List (Bytes × FieldKind)) (t : DocSchema),
    t.fixed = false → (fields.map Prod.fst).Nodup → (∀ f ∈ fields, f.1 ∉ t.fieldsSchema) →
    (∀ f ∈ fields, f.1.length ≤ 255) →
    ∃ t', t'.fixed = false ∧ t'.fieldsSchema = t.fieldsSchema.insertMany fields ∧
      ∀ rest, deserializeFields fields.length (fields.flatMap s.serializeField ++ rest) t = some t' := by
  intro fields
  induction fields with
  | nil =>
    intro t ht _ _ _
    exact ⟨t, ht, ExtTreeMap.insertMany_nil.symm, fun _ => rfl⟩
  | cons f fields ih =>
    intro t ht hnodup hnew hlen
    obtain ⟨name, kind⟩ := f
    rw [List.map_cons, List.nodup_cons] at hnodup
    have hsize : (UInt8.ofNat name.length).toNat = name.length :=
      UInt8.toNat_ofNat_of_lt' (Nat.lt_succ_of_le (hlen (name, kind) List.mem_cons_self))
    obtain ⟨hfixed, hschema⟩ := addTyped_of_new ht (hnew (name, kind) List.mem_cons_self) kind
    obtain ⟨t', ht', hfields, hrun⟩ := ih (t.addTyped kind.typeValue name) hfixed hnodup.2
      (fun f hf => by
        rw [hschema, ExtTreeMap.mem_insert, Std.compare_eq_iff_eq, not_or]
        refine ⟨fun heq => hnodup.1 (heq ▸ List.mem_map_of_mem hf), hnew f (List.mem_cons_of_mem _ hf)⟩)
      (fun f hf => hlen f (List.mem_cons_of_mem _ hf))
    refine ⟨t', ht', ?_, fun rest => ?_⟩
    · rw [hfields, hschema, ExtTreeMap.insertMany_cons]
    · rw [List.length_cons, List.flatMap_cons, serializeField, List.append_assoc, List.append_assoc]
      simp only [List.cons_append, List.nil_append, deserializeFields, hsize, List.length_append,
        List.take_left, List.drop_left, if_pos (Nat.le_add_right _ _)]
      exact hrun rest

/-- A part of the fields is not enough for it. -/
theorem deserializeFields_of_prefix (s : DocSchema) : ∀ (fields : List (Bytes × FieldKind))
    (t : DocSchema) {bs : Bytes}, (∀ f ∈ fields, f.1.length ≤ 255) →
    bs <+: fields.flatMap s.serializeField → bs ≠ fields.flatMap s.serializeField →
    deserializeFields fields.length bs t = none := by
  intro fields
  induction fields with
  | nil =>
    intro t bs _ hbs hne
    exact absurd (List.prefix_nil.mp hbs) hne
  | cons f fields ih =>
    intro t bs hlen hbs hne
    obtain ⟨name, kind⟩ := f
    have hsize : (UInt8.ofNat name.length).toNat = name.length :=
      UInt8.toNat_ofNat_of_lt' (Nat.lt_succ_of_le (hlen (name, kind) List.mem_cons_self))
    rw [List.flatMap_cons, serializeField] at hbs hne
    match bs with
    | [] => rfl
    | [_] => rfl
    | [_, _] => rfl
    | b₁ :: b₂ :: b₃ :: bs =>
      simp only [List.cons_append, List.nil_append, List.cons_prefix_cons] at hbs hne
      obtain ⟨rfl, rfl, rfl, hbs⟩ := hbs
      simp only [List.length_cons, deserializeFields, hsize]
      split
      · rename_i hle
        -- The whole name is there, so it is the rest that is cut off.
        have hname : bs.take name.length = name := by
          rw [List.prefix_iff_eq_take.mp hbs, List.take_take, Nat.min_eq_left hle, List.take_left]
        obtain ⟨rest, rfl⟩ : ∃ rest, bs = name ++ rest := by
          refine ⟨bs.drop name.length, ?_⟩
          conv_lhs => rw [← List.take_append_drop name.length bs, hname]
        rw [List.drop_left]
        exact ih _ (fun f hf => hlen f (List.mem_cons_of_mem _ hf))
          ((List.prefix_append_right_inj name).mp hbs) (fun heq => hne (by rw [heq]))
      · rfl

/-- **A schema is read back as it was written**, if its counts and lengths fit in a byte, whatever
stands behind it. -/
theorem deserialize_serialize_append {s : DocSchema} (hs : s.fixed = true)
    (hsize : s.fieldsSchema.size ≤ 255) (hlen : ∀ name ∈ s.fieldsSchema, name.length ≤ 255) :
    ∃ s', s'.fixed = true ∧ s'.fieldsSchema = s.fieldsSchema ∧ s'.toNumbering = s.toNumbering ∧
      ∀ rest, deserialize (s.serialize ++ rest) = some s' := by
  have hcount : (UInt8.ofNat s.fieldsSchema.size).toNat = s.fieldsSchema.toList.length := by
    rw [ExtTreeMap.length_toList]
    exact UInt8.toNat_ofNat_of_lt' (Nat.lt_succ_of_le hsize)
  obtain ⟨t, ht, hfields, hread⟩ := deserializeFields_flatMap s s.fieldsSchema.toList new rfl
    (nodup_names _) (fun _ _ => ExtTreeMap.not_mem_empty)
    (fun f hf => hlen f.1 (mem_names.mp (List.mem_map_of_mem hf)))
  have hsame : t.fieldsSchema = s.fieldsSchema := hfields.trans (insertMany_toList _)
  have hbuild : t.build.fixed = true ∧ t.build.fieldsSchema = s.fieldsSchema := by
    rw [build, if_neg (by simp [ht])]
    exact ⟨rfl, hsame⟩
  refine ⟨t.build, hbuild.1, hbuild.2, ?_, fun rest => ?_⟩
  · rw [t.build.numbered hbuild.1, hbuild.2, s.numbered hs]
  · rw [serialize, if_pos hs, List.cons_append, deserialize, hcount, hread rest]
    rfl

theorem deserialize_serialize {s : DocSchema} (hs : s.fixed = true)
    (hsize : s.fieldsSchema.size ≤ 255) (hlen : ∀ name ∈ s.fieldsSchema, name.length ≤ 255) :
    ∃ s', deserialize s.serialize = some s' ∧ s'.toNumbering = s.toNumbering := by
  obtain ⟨s', -, -, hnumbering, hread⟩ := deserialize_serialize_append hs hsize hlen
  exact ⟨s', List.append_nil s.serialize ▸ hread [], hnumbering⟩

/-- What is written is not enough with a byte less. -/
theorem deserialize_of_prefix {s : DocSchema} (hs : s.fixed = true)
    (hsize : s.fieldsSchema.size ≤ 255) (hlen : ∀ name ∈ s.fieldsSchema, name.length ≤ 255)
    {bs : Bytes} (hbs : bs <+: s.serialize) (hne : bs ≠ s.serialize) : deserialize bs = none := by
  have hcount : (UInt8.ofNat s.fieldsSchema.size).toNat = s.fieldsSchema.toList.length := by
    rw [ExtTreeMap.length_toList]
    exact UInt8.toNat_ofNat_of_lt' (Nat.lt_succ_of_le hsize)
  rw [serialize, if_pos hs] at hbs hne
  cases bs with
  | nil => rfl
  | cons count bs =>
    obtain ⟨rfl, htail⟩ := List.cons_prefix_cons.mp hbs
    rw [deserialize, hcount, deserializeFields_of_prefix s _ _
      (fun f hf => hlen f.1 (mem_names.mp (List.mem_map_of_mem hf))) htail
      (fun heq => hne (by rw [heq])), Option.map_none]

theorem serialize_congr {s s' : DocSchema} (hs : s.fixed = true) (hs' : s'.fixed = true)
    (hfields : s'.fieldsSchema = s.fieldsSchema) : s'.serialize = s.serialize := by
  have hnumbering : s'.toNumbering = s.toNumbering := by
    rw [s'.numbered hs', hfields, s.numbered hs]
  have hid : s'.getFieldId = s.getFieldId := by
    funext name
    rw [getFieldId, hnumbering]
    rfl
  have hfield : s'.serializeField = s.serializeField := by
    funext field
    rw [serializeField, hid]
    rfl
  rw [serialize, serialize, if_pos hs, if_pos hs', hfields, hfield]

/-- **The format of a schema loses nothing.** What is written is read to its last byte and no
further, and the schema that is read is written in the same bytes.

Fields are written in the order of their names, so it does not matter in which order they were
added. A part of the bytes, however long, is not read as a schema. The bounds are those of the
format, which has a byte for the number of fields and a byte for the length of each name. -/
theorem serialize_roundTrip {s : DocSchema} (hs : s.fixed = true)
    (hsize : s.fieldsSchema.size ≤ 255) (hlen : ∀ name ∈ s.fieldsSchema, name.length ≤ 255) :
    ∃ s', (∀ rest, deserialize (s.serialize ++ rest) = some s') ∧
      (∀ bs, bs <+: s.serialize → bs ≠ s.serialize → deserialize bs = none) ∧
      s'.fixed = true ∧ s'.fieldsSchema.size = s.fieldsSchema.size ∧
      s'.fieldsNameId = s.fieldsNameId ∧ s'.fieldsIdName = s.fieldsIdName ∧
      s'.fieldsIdType = s.fieldsIdType ∧ s'.serialize = s.serialize := by
  obtain ⟨s', hs', hfields, hnumbering, hread⟩ := deserialize_serialize_append hs hsize hlen
  refine ⟨s', hread, fun _ => deserialize_of_prefix hs hsize hlen, hs', by rw [hfields], ?_, ?_, ?_,
    serialize_congr hs hs' hfields⟩
  · rw [hnumbering]
  · rw [hnumbering]
  · rw [hnumbering]

/-- A schema of two fields, not added in the order of their names. -/
def labelled : DocSchema := ((new.addStringField [108] []).addLongField primaryKeyName 0).build

theorem serialize_roundTrip_labelled :
    ∃ s', (∀ rest, deserialize (labelled.serialize ++ rest) = some s') ∧
      (∀ bs, bs <+: labelled.serialize → bs ≠ labelled.serialize → deserialize bs = none) ∧
      s'.fixed = true ∧ s'.fieldsSchema.size = labelled.fieldsSchema.size ∧
      s'.fieldsNameId = labelled.fieldsNameId ∧ s'.fieldsIdName = labelled.fieldsIdName ∧
      s'.fieldsIdType = labelled.fieldsIdType ∧ s'.serialize = labelled.serialize := by
  have hlen : ∀ f ∈ labelled.fieldsSchema.toList, f.1.length ≤ 255 := by decide
  refine serialize_roundTrip (by decide) (by decide) fun name hname => ?_
  obtain ⟨f, hf, rfl⟩ := List.mem_map.mp (mem_names.mpr hname)
  exact hlen f hf

end DocSchema

end CxxLab.RocksdbLab
