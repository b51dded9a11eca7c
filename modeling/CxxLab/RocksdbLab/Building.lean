import CxxLab.RocksdbLab.Values
import Mathlib.Data.List.Dedup

/-!
# How schemas and documents are filled

Fields are added by name, and only the first addition of a name counts: `firsts` is what is left of a
sequence of additions, and `Filled` says that this is what a schema then has.

Two things rest on it. `Build` numbers the fields in the order of their names, so the primary key is
field 0, as the store takes for granted, unless there is a name in front of `_id`; and names that begin
with a capital letter are (`getFieldId_primaryKey_iff`). A `Doc` looks up in its schema whether it may
have a field, but in one of its two families of `Add…Field` only, it never looks at the type, and
`Build` counts. So a document conforms to its schema when the caller saw to it, and not otherwise
(`conformsTo_iff`).
-/

set_option autoImplicit false

namespace CxxLab.RocksdbLab

open Std CxxLab.Lib

/-! ## Sequences of additions -/

/-- What an addition leaves of the additions so far. -/
def keepFirst (added : List (Bytes × Value)) (field : Bytes × Value) : List (Bytes × Value) :=
  if (added.map Prod.fst).contains field.1 then added else added ++ [field]

/-- The additions that count. -/
def firsts (calls : List (Bytes × Value)) : List (Bytes × Value) := calls.foldl keepFirst []

/-- A schema that is not built yet has these fields with these values. -/
structure Filled (s : DocSchema) (added : List (Bytes × Value)) : Prop where
  opened : s.fixed = false
  fields : ∀ name kind, s.fieldsSchema[name]? = some kind ↔ ∃ v, (name, v) ∈ added ∧ v.kind = kind
  values : ∀ f, f ∈ s.values ↔ f ∈ added
  nodup : (s.values.map Prod.fst).Nodup

namespace Filled

variable {s : DocSchema} {added : List (Bytes × Value)}

theorem new : Filled DocSchema.new [] where
  opened := rfl
  fields name kind := by
    rw [show DocSchema.new.fieldsSchema = ∅ from rfl, ExtTreeMap.getElem?_empty]
    simp
  values _ := Iff.rfl
  nodup := List.nodup_nil

theorem mem_fieldsSchema (h : Filled s added) {name : Bytes} :
    name ∈ s.fieldsSchema ↔ name ∈ added.map Prod.fst := by
  rw [mem_iff_exists, List.mem_map]
  constructor
  · rintro ⟨kind, hkind⟩
    obtain ⟨v, hv, -⟩ := (h.fields name kind).mp hkind
    exact ⟨(name, v), hv, rfl⟩
  · rintro ⟨f, hf, rfl⟩
    exact ⟨_, (h.fields f.1 _).mpr ⟨f.2, hf, rfl⟩⟩

/-- **One addition.** -/
theorem add (h : Filled s added) (field : Bytes × Value) :
    Filled (s.add field.1 field.2) (keepFirst added field) := by
  obtain ⟨name, v⟩ := field
  rw [keepFirst]
  split
  · rename_i hname
    rw [DocSchema.add_of_mem (h.mem_fieldsSchema.mpr (List.contains_iff_mem.mp hname))]
    exact h
  · rename_i hnot
    have hname : name ∉ added.map Prod.fst := mt List.contains_iff_mem.mpr hnot
    obtain ⟨hopen, hfields, hvalues⟩ :=
      DocSchema.add_of_not_mem h.opened (fun hin => hname (h.mem_fieldsSchema.mp hin)) v
    refine ⟨hopen, fun n kind => ?_, fun f => ?_, ?_⟩
    · rw [hfields, getElem?_insert_eq]
      split
      · rename_i heq
        subst heq
        constructor
        · intro hkind
          exact ⟨v, by simp, Option.some_inj.mp hkind⟩
        · rintro ⟨w, hw, rfl⟩
          rcases List.mem_append.mp hw with hw | hw
          · exact absurd (List.mem_map_of_mem (f := Prod.fst) hw) hname
          · cases List.mem_singleton.mp hw
            rfl
      · rename_i hne
        rw [h.fields]
        simp [hne]
    · rw [hvalues.mem_iff, List.mem_cons, h.values, List.mem_append, List.mem_singleton, or_comm]
    · refine (hvalues.map Prod.fst).nodup_iff.mpr (List.nodup_cons.mpr ⟨fun hin => hname ?_, h.nodup⟩)
      obtain ⟨f, hf, rfl⟩ := List.mem_map.mp hin
      exact List.mem_map_of_mem ((h.values f).mp hf)

/-- **A sequence of additions.** -/
theorem addAll (calls : List (Bytes × Value)) : ∀ {s : DocSchema} {added : List (Bytes × Value)},
    Filled s added → Filled (calls.foldl (fun s c => s.add c.1 c.2) s) (calls.foldl keepFirst added) := by
  induction calls with
  | nil => intro s added h; exact h
  | cons c calls ih => intro s added h; exact ih (h.add c)

end Filled

/-- Every name is among those that count. -/
theorem mem_names_firsts {calls : List (Bytes × Value)} {name : Bytes} :
    name ∈ (firsts calls).map Prod.fst ↔ name ∈ calls.map Prod.fst := by
  induction calls using List.reverseRecOn with
  | nil => rfl
  | append_singleton calls c ih =>
    rw [firsts, List.foldl_concat, keepFirst, List.map_append, List.mem_append, ← ih]
    split
    · rename_i hin
      constructor
      · exact Or.inl
      · rintro (h | h)
        · exact h
        · cases List.mem_singleton.mp h
          exact List.contains_iff_mem.mp hin
    · rw [List.map_append, List.mem_append]
      rfl

/-! ## Field 0 -/

/-- **Field 0 has the first name.** -/
theorem DocSchema.getFieldId_eq_zero_iff {s : DocSchema} (hs : s.fixed = true)
    (hsize : s.fieldsSchema.size ≤ 256) {name : Bytes} : s.getFieldId name = some 0 ↔
      name ∈ s.fieldsSchema ∧ ∀ n ∈ s.fieldsSchema, compare n name ≠ .lt := by
  have hordered : s.fieldsSchema.toList.Pairwise fun a b => compare a.1 b.1 = .lt :=
    ExtTreeMap.ordered_keys_toList
  have hentry : ∀ {n : Bytes} {i : Nat} {kind : FieldKind},
      s.fieldsSchema.toList[i]? = some (n, kind) → n ∈ s.fieldsSchema := fun hi =>
    mem_names.mp (List.mem_map_of_mem (f := Prod.fst) (List.mem_of_getElem? hi))
  rw [getFieldId_eq_some hs]
  constructor
  · rintro ⟨i, kind, hi, hzero⟩
    obtain ⟨hlt, hget⟩ := List.getElem?_eq_some_iff.mp hi
    have hsmall := hlt
    rw [ExtTreeMap.length_toList] at hsmall
    have hnat : i = 0 := by
      have hval := congrArg UInt8.toNat hzero
      rw [UInt8.toNat_ofNat', Nat.mod_eq_of_lt (Nat.lt_of_lt_of_le hsmall hsize)] at hval
      exact hval
    subst hnat
    refine ⟨hentry hi, fun n hn => ?_⟩
    obtain ⟨f, hf, rfl⟩ := List.mem_map.mp (mem_names.mpr hn)
    obtain ⟨j, hj, rfl⟩ := List.mem_iff_getElem.mp hf
    rcases Nat.eq_zero_or_pos j with rfl | hpos
    · rw [hget, Std.compare_self]
      exact nofun
    · have hless := List.pairwise_iff_getElem.mp hordered 0 j hlt hj hpos
      rw [hget] at hless
      exact Std.OrientedCmp.not_lt_of_lt hless
  · rintro ⟨hname, hfirst⟩
    obtain ⟨⟨name, kind⟩, hf, rfl⟩ := List.mem_map.mp (mem_names.mpr hname)
    obtain ⟨i, hi, hget⟩ := List.mem_iff_getElem.mp hf
    rcases Nat.eq_zero_or_pos i with rfl | hpos
    · exact ⟨0, kind, List.getElem?_eq_some_iff.mpr ⟨hi, hget⟩, rfl⟩
    · have hless := List.pairwise_iff_getElem.mp hordered 0 i (by omega) hi hpos
      rw [hget] at hless
      exact absurd hless (hfirst _ (hentry (List.getElem?_eq_getElem (by omega))))

/-- A new schema, filled and built. -/
def DocSchema.ofCalls (calls : List (Bytes × Value)) : DocSchema :=
  (calls.foldl (fun s c => s.add c.1 c.2) new).build

theorem DocSchema.ofCalls_spec (calls : List (Bytes × Value)) :
    (ofCalls calls).fixed = true ∧
      ∀ name, name ∈ (ofCalls calls).fieldsSchema ↔ name ∈ calls.map Prod.fst := by
  have hfilled := Filled.addAll calls Filled.new
  rw [ofCalls, build, if_neg (by simp [hfilled.opened])]
  exact ⟨rfl, fun name => hfilled.mem_fieldsSchema.trans mem_names_firsts⟩

theorem DocSchema.size_ofCalls_le (calls : List (Bytes × Value)) :
    (ofCalls calls).fieldsSchema.size ≤ (calls.map Prod.fst).dedup.length := by
  rw [← ExtTreeMap.length_keys]
  refine (List.subperm_of_subset ExtTreeMap.nodup_keys fun name hname => ?_).length_le
  exact List.mem_dedup.mpr (((ofCalls_spec calls).2 name).mp (ExtTreeMap.mem_keys.mp hname))

/-- **When the primary key is field 0**: no field has a name in front of `_id`. `Build` numbers the
fields in the order of a map, which is that of the names, byte by byte, and not in the order in
which they were added. Names that begin with a digit or a capital letter are in front. -/
theorem getFieldId_primaryKey_iff {calls : List (Bytes × Value)} {pk : Int64}
    (hpk : (primaryKeyName, .long pk) ∈ calls) (hnames : (calls.map Prod.fst).dedup.length ≤ 255) :
    (DocSchema.ofCalls calls).getFieldId primaryKeyName = some 0 ↔
      ∀ f ∈ calls, compare f.1 primaryKeyName ≠ .lt := by
  obtain ⟨hfixed, hmem⟩ := DocSchema.ofCalls_spec calls
  rw [DocSchema.getFieldId_eq_zero_iff hfixed
    (Nat.le_trans (DocSchema.size_ofCalls_le calls) (Nat.le_succ_of_le hnames))]
  constructor
  · rintro ⟨-, hfirst⟩ f hf
    exact hfirst f.1 ((hmem f.1).mpr (List.mem_map_of_mem hf))
  · intro hfirst
    refine ⟨(hmem _).mpr (List.mem_map_of_mem (f := Prod.fst) hpk), fun n hn => ?_⟩
    obtain ⟨f, hf, rfl⟩ := List.mem_map.mp ((hmem n).mp hn)
    exact hfirst f hf

/-- `name` is behind `_id`. -/
theorem getFieldId_primaryKey_name :
    (DocSchema.ofCalls [([110, 97, 109, 101], .string []), (primaryKeyName, .long 0)]).getFieldId
        primaryKeyName = some 0 ↔
      ∀ f ∈ [([110, 97, 109, 101], Value.string []), (primaryKeyName, .long 0)],
        compare f.1 primaryKeyName ≠ .lt :=
  @getFieldId_primaryKey_iff _ 0 (by simp) (by decide)

/-- `Age` is in front of it. -/
theorem getFieldId_primaryKey_age :
    (DocSchema.ofCalls [(primaryKeyName, .long 0), ([65, 103, 101], .long 0)]).getFieldId
        primaryKeyName ≠ some 0 := by
  decide +kernel

/-! ## Calls on a document -/

namespace Doc

/-- What the four `Doc::Add…Field` have in common: the field must be built, and the schema must have
its name. Both are asserted. -/
def checked (d : Doc) (name : Bytes) (built : Bool) (s : DocSchema) : Option Doc :=
  if built = true ∧ name ∈ d.schema.fieldsSchema then some { s with schema := d.schema } else none

/-- `Doc::AddLongField`, of a constant reference. -/
def addLongField (d : Doc) (name : Bytes) (value : Int64) (built : Bool) : Option Doc :=
  d.checked name built (d.toDocSchema.addLongField name value)

/-- `Doc::AddFloatField`, of a constant reference. -/
def addFloatField (d : Doc) (name : Bytes) (value : UInt32) (built : Bool) : Option Doc :=
  d.checked name built (d.toDocSchema.addFloatField name value)

/-- `Doc::AddStringField`, of a constant reference. -/
def addStringField (d : Doc) (name : Bytes) (value : Bytes) (built : Bool) : Option Doc :=
  d.checked name built (d.toDocSchema.addStringField name value)

/-- `Doc::AddFloatVectorField`, of a constant reference. -/
def addFloatVectorField (d : Doc) (name : Bytes) (value : List UInt32) (built : Bool) : Option Doc :=
  d.checked name built (d.toDocSchema.addFloatVectorField name value)

/-- `DocSchema::AddFloatVectorFieldValue`. -/
def addFloatVectorFieldValue (d : Doc) (name : Bytes) (value : List UInt32) : Doc :=
  { d.toDocSchema.addFloatVectorField name value with schema := d.schema }

/-- `Add…Field` of a constant reference, by the type of the value. -/
def addField (d : Doc) (name : Bytes) (built : Bool) : Value → Option Doc
  | .long v => d.addLongField name v built
  | .float v => d.addFloatField name v built
  | .string v => d.addStringField name v built
  | .floatVector v => d.addFloatVectorField name v built

/-- `Add…FieldValue`, by the type of the value. -/
def addFieldValue (d : Doc) (name : Bytes) : Value → Doc
  | .long v => d.addLongFieldValue name v
  | .float v => d.addFloatFieldValue name v
  | .string v => d.addStringFieldValue name v
  | .floatVector v => d.addFloatVectorFieldValue name v

end Doc

/-- A call on a document. A field that is handed over, `AddLongField(LongField&&)` and so on, goes to
the function of `DocSchema`: `Doc` has no such overload, but every `Add…` returns a `DocSchema&`, through
which it can be called. -/
inductive DocCall where
  | add (name : Bytes) (value : Value) (built : Bool)
  | addMoved (name : Bytes) (value : Value)
  | addValue (name : Bytes) (value : Value)

/-- The field a call adds. -/
def DocCall.field : DocCall → Bytes × Value
  | add name value _ => (name, value)
  | addMoved name value => (name, value)
  | addValue name value => (name, value)

/-- One call. There is no result where an assertion fails. -/
def Doc.call (d : Doc) : DocCall → Option Doc
  | .add name value built => d.addField name built value
  | .addMoved name value => some { d.toDocSchema.add name value with schema := d.schema }
  | .addValue name value => some (d.addFieldValue name value)

/-- Whatever the call, the field is added and the schema is the same. -/
theorem Doc.call_eq {d d' : Doc} {c : DocCall} (h : d.call c = some d') :
    d'.toDocSchema = d.toDocSchema.add c.field.1 c.field.2 ∧ d'.schema = d.schema := by
  have hchecked : ∀ {name : Bytes} {built : Bool} {s : DocSchema},
      d.checked name built s = some d' → d'.toDocSchema = s ∧ d'.schema = d.schema := by
    intro name built s h
    rw [checked] at h
    split at h
    · cases h
      exact ⟨rfl, rfl⟩
    · cases h
  cases c with
  | add name value built => cases value <;> exact hchecked h
  | addMoved name value =>
    cases h
    exact ⟨rfl, rfl⟩
  | addValue name value =>
    cases h
    cases value <;> exact ⟨rfl, rfl⟩

/-- **A sequence of calls.** -/
theorem Filled.calls : ∀ (calls : List DocCall) {d d' : Doc} {added : List (Bytes × Value)},
    Filled d.toDocSchema added → calls.foldlM Doc.call d = some d' →
    Filled d'.toDocSchema ((calls.map DocCall.field).foldl keepFirst added) ∧
      d'.schema = d.schema := by
  intro calls
  induction calls with
  | nil =>
    intro d d' added h hrun
    cases hrun
    exact ⟨h, rfl⟩
  | cons c calls ih =>
    intro d d' added h hrun
    rw [List.foldlM_cons] at hrun
    obtain ⟨d₁, hone, hrest⟩ := Option.bind_eq_some_iff.mp hrun
    obtain ⟨hadd, hschema⟩ := Doc.call_eq hone
    obtain ⟨hfilled, hsame⟩ := ih (hadd ▸ h.add c.field) hrest
    exact ⟨hfilled, hsame.trans hschema⟩

/-! ## What `Build` should have seen to -/

/-- A document has the fields of a schema, and is serialized to one entry for each of them. -/
def Doc.ConformsTo (d : Doc) (schema : DocSchema) : Prop :=
  d.fieldsSchema = schema.fieldsSchema ∧ ∃ m, d.serialize = some m ∧
    (∀ k, (∃ fid ∈ m, fid.toNat = k) ↔ k < schema.fieldsSchema.size) ∧
    ∀ name v fid, (name, v) ∈ d.values → schema.getFieldId name = some fid → m[fid]? = some v.serialize

/-- With the fields of its schema, a document has a value for each of them. -/
theorem Filled.typed {d d' : Doc} {added : List (Bytes × Value)} (h : Filled d.toDocSchema added)
    {schema : DocSchema} (hschema : d.schema = schema) (hfields : d.fieldsSchema = schema.fieldsSchema)
    (hbuild : d.build = (true, d')) : d'.Typed schema := by
  rw [Doc.build, if_neg (by rw [hschema, hfields]; simp)] at hbuild
  cases hbuild
  have hvalues : d.toDocSchema.build.values = d.values := DocSchema.values_build d.toDocSchema
  have hkinds : ∀ f ∈ d.toDocSchema.build.values, schema.fieldsSchema[f.1]? = some f.2.kind := by
    intro f hf
    rw [hvalues] at hf
    exact hfields ▸ (h.fields f.1 f.2.kind).mpr ⟨f.2, (h.values f).mp hf, rfl⟩
  refine { built := ?_, sameIds := by rw [hschema], known := fun f hf => ?_,
           complete := fun name hname => ?_, nodup := ?_, kinds := hkinds }
  · show d.toDocSchema.build.fixed = true
    rw [DocSchema.build, if_neg (by simp [h.opened])]
  · rw [Doc.serializedFields_eq, List.mem_map] at hf
    obtain ⟨g, hg, rfl⟩ := hf
    exact mem_iff_exists.mpr ⟨_, hkinds g hg⟩
  · obtain ⟨kind, hkind⟩ := mem_iff_exists.mp (ExtTreeMap.mem_keys.mp hname)
    obtain ⟨v, hv, -⟩ := (h.fields name kind).mp (hfields ▸ hkind)
    rw [Doc.serializedFields_eq, List.map_map]
    refine List.mem_map.mpr ⟨(name, v), ?_, rfl⟩
    show (name, v) ∈ d.toDocSchema.build.values
    rw [hvalues]
    exact (h.values _).mpr hv
  · show (d.toDocSchema.build.values.map Prod.fst).Nodup
    rw [hvalues]
    exact h.nodup

/-- A document that can be built, and has no field its schema has not, has them all. -/
theorem Filled.fieldsSchema_eq {d d' : Doc} {added : List (Bytes × Value)}
    (h : Filled d.toDocSchema added) {schema : DocSchema} (hschema : d.schema = schema)
    (hbuild : d.build = (true, d')) : d.fieldsSchema = schema.fieldsSchema ↔
      ∀ f ∈ added, schema.fieldsSchema[f.1]? = some f.2.kind := by
  constructor
  · intro hfields f hf
    exact hfields ▸ (h.fields f.1 f.2.kind).mpr ⟨f.2, hf, rfl⟩
  · intro hadded
    have hsize : d.fieldsSchema.size = d.schema.fieldsSchema.size := by
      by_contra hne
      rw [Doc.build, if_pos hne] at hbuild
      cases hbuild
    refine eq_of_entries_subset (fun name kind hkind => ?_) (by rw [hsize, hschema])
    obtain ⟨v, hv, rfl⟩ := (h.fields name kind).mp hkind
    exact hadded _ hv

/-- **When a document that was built conforms to its schema**: each field that was added is one of
the schema, of that type, and the schema has no more fields than there are ids.

`Build` compares the number of fields with that of the schema, and nothing else. Of several
additions of one name the first counts (`firsts`), the primary key of the constructor before all
others. -/
theorem conformsTo_iff {schema : DocSchema} (hs : schema.fixed = true) {pk : Int64}
    {calls : List DocCall} {d d' : Doc} (hrun : calls.foldlM Doc.call (Doc.new pk schema) = some d)
    (hbuild : d.build = (true, d')) :
    d'.ConformsTo schema ↔ schema.fieldsSchema.size ≤ 256 ∧
      ∀ f ∈ firsts ((primaryKeyName, .long pk) :: calls.map DocCall.field),
        schema.fieldsSchema[f.1]? = some f.2.kind := by
  obtain ⟨hfilled, hschema⟩ := Filled.calls calls
    (Filled.new.add (primaryKeyName, Value.long pk) : Filled (Doc.new pk schema).toDocSchema _) hrun
  have hschema : d.schema = schema := hschema
  have hsame : d'.fieldsSchema = d.fieldsSchema := by
    rw [Doc.build] at hbuild
    split at hbuild
    · cases hbuild
    · cases hbuild
      show d.toDocSchema.build.fieldsSchema = _
      rw [DocSchema.build]
      split <;> rfl
  have hfields := hfilled.fieldsSchema_eq hschema hbuild
  rw [Doc.ConformsTo, hsame, hfields]
  constructor
  · rintro ⟨hadded, m, -, hkeys, -⟩
    refine ⟨?_, hadded⟩
    by_contra hlarge
    obtain ⟨fid, -, hfid⟩ := (hkeys 256).mpr (Nat.lt_of_not_le hlarge)
    exact absurd (hfid ▸ fid.toNat_lt) (by decide)
  · rintro ⟨hsize, hadded⟩
    have htyped := hfilled.typed hschema (hfields.mpr hadded) hbuild
    obtain ⟨m, hm, hids⟩ := htyped.serialize hs
    refine ⟨hadded, m, hm, fun k => ?_, fun name v fid hv hfid =>
      htyped.getElem?_serialize hs hsize hm hv hfid⟩
    constructor
    · rintro ⟨fid, hfid, rfl⟩
      exact (hids fid).mp hfid
    · intro hk
      have hnat : (UInt8.ofNat k).toNat = k := UInt8.toNat_ofNat_of_lt' (Nat.lt_of_lt_of_le hk hsize)
      exact ⟨UInt8.ofNat k, (hids _).mpr (by rw [hnat]; exact hk), hnat⟩

/-- The bytes of `name`. -/
def fieldName : Bytes := [110, 97, 109, 101]

/-- A primary key and a name. -/
def nameSchema : DocSchema :=
  DocSchema.ofCalls [(primaryKeyName, .long 0), (fieldName, .string [])]

/-- A document with one more field. -/
def docWith (field : Bytes) (value : Value) : Doc := (Doc.new 1 nameSchema).addFieldValue field value

theorem conformsTo_name :
    (docWith fieldName (.string [97])).build.2.ConformsTo nameSchema ↔
      nameSchema.fieldsSchema.size ≤ 256 ∧
        ∀ f ∈ firsts [(primaryKeyName, .long 1), (fieldName, .string [97])],
          nameSchema.fieldsSchema[f.1]? = some f.2.kind :=
  @conformsTo_iff nameSchema (by decide +kernel) 1 [.addValue fieldName (.string [97])]
    (docWith fieldName (.string [97])) _ rfl (Prod.ext (by decide +kernel) rfl)

/-- A number instead of the name. It is taken, and not noticed by `Build`. -/
theorem not_conformsTo_number :
    nameSchema.fixed = true ∧
      [DocCall.addValue fieldName (.long 5)].foldlM Doc.call (Doc.new 1 nameSchema) =
        some (docWith fieldName (.long 5)) ∧
      (docWith fieldName (.long 5)).build.1 = true ∧
      ¬ (docWith fieldName (.long 5)).build.2.ConformsTo nameSchema := by
  refine ⟨by decide +kernel, rfl, by decide +kernel, fun h => ?_⟩
  have hkind := congrArg (fun m : ExtTreeMap Bytes FieldKind => m[fieldName]?) h.1
  have hstring : nameSchema.fieldsSchema[fieldName]? = some .string := by decide +kernel
  have hlong : (docWith fieldName (.long 5)).build.2.fieldsSchema[fieldName]? = some .long := by
    decide +kernel
  cases hlong.symm.trans (hkind.trans hstring)

end CxxLab.RocksdbLab
