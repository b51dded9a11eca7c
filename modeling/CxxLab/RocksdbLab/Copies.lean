import CxxLab.RocksdbLab.Building

/-!
# Copies of documents

`DocSchema` has a copy and a move constructor of its own, which list the members one by one. Both
leave out `float_vector_fields_`. `Doc` has neither, so it is copied and moved through these: a document
with a vector of floats loses it on the way, although the maps of its fields still say that it is there.

`Doc::Serialize` is where this shows. It puts the vectors in last, each under the id of its field, so
the copy has the same result only if what the vectors are put over is the same already
(`Doc.copy_move_preserved_iff`). With ids that are not used twice there is nothing to put them over, and
then only a document without vectors is copied as it is.
-/

set_option autoImplicit false

namespace CxxLab.RocksdbLab

open Std CxxLab.Lib

/-- The move constructor of `DocSchema`: the schema that is made. -/
def DocSchema.move (s : DocSchema) : DocSchema where
  fieldsSchema := s.fieldsSchema
  fieldsNameId := s.fieldsNameId
  fieldsIdName := s.fieldsIdName
  fieldsIdType := s.fieldsIdType
  longFields := s.longFields
  floatFields := s.floatFields
  stringFields := s.stringFields
  floatVectorFields := []
  fixed := s.fixed
  numbered := s.numbered

/-- `DocSchema::GetFieldType` of a name. -/
def DocSchema.getFieldTypeOf (s : DocSchema) (name : Bytes) : Option UInt8 := do
  let fid ← s.getFieldId name
  s.getFieldType fid

namespace Doc

/-- The copy constructor of `Doc`. -/
def copy (d : Doc) : Doc := { d.toDocSchema.copy with schema := d.schema }

/-- The move constructor of `Doc`: the document that is made. -/
def move (d : Doc) : Doc := { d.toDocSchema.move with schema := d.schema }

/-- Another document gives the same answers. -/
structure Preserved (d d' : Doc) : Prop where
  serialize : ∀ m, d.serialize = some m → d'.serialize = some m
  hasBuilt : d'.fixed = d.fixed
  fieldId : ∀ name, d'.getFieldId name = d.getFieldId name
  fieldType : ∀ fid, d'.getFieldType fid = d.getFieldType fid
  fieldTypeOf : ∀ name, d'.getFieldTypeOf name = d.getFieldTypeOf name
  fieldName : ∀ fid, d'.getFieldName fid = d.getFieldName fid

/-- The vectors of floats, as `Serialize` comes to them in the end. -/
def serializedVectors (d : Doc) : List (Bytes × Bytes) :=
  d.floatVectorFields.map fun f => (f.1, f.2.flatMap fun x => (BigEndian.toBytes 4 x.toNat).reverse)

/-- The fields `Serialize` comes to before. -/
def serializedScalars (d : Doc) : List (Bytes × Bytes) :=
  d.longFields.map (fun f => (f.1, RocksdbLab.serialize f.2.toUInt64)) ++
    d.floatFields.map (fun f => (f.1, BigEndian.toBytes 4 f.2.toNat)) ++ d.stringFields

theorem serializedFields_split (d : Doc) :
    d.serializedFields = d.serializedScalars ++ d.serializedVectors := rfl

theorem serializedFields_copy (d : Doc) : d.copy.serializedFields = d.serializedScalars :=
  List.append_nil _

/-- What is filed last under an id. -/
def lastUnder (d : Doc) (fields : List (Bytes × Bytes)) (fid : UInt8) : Option Bytes :=
  (fields.reverse.find? fun f => d.schema.getFieldId f.1 = some fid).map Prod.snd

/-- The loop of `Serialize`. -/
def fileAll (d : Doc) (fields : List (Bytes × Bytes)) (m : ExtTreeMap UInt8 Bytes) :
    Option (ExtTreeMap UInt8 Bytes) :=
  fields.foldlM (fun serialized f => do
    let fid ← d.schema.getFieldId f.1
    return serialized.insert fid f.2) m

theorem serialize_eq (d : Doc) : d.serialize = d.fileAll d.serializedFields ∅ := rfl

/-- **The last one stays**, and every field was known. -/
theorem getElem?_fileAll {d : Doc} {m m' : ExtTreeMap UInt8 Bytes} : ∀ {fields : List (Bytes × Bytes)},
    d.fileAll fields m = some m' → (∀ f ∈ fields, ∃ fid, d.schema.getFieldId f.1 = some fid) ∧
      ∀ fid, m'[fid]? = (d.lastUnder fields fid).or m[fid]? := by
  intro fields
  induction fields using List.reverseRecOn generalizing m' with
  | nil =>
    intro h
    cases h
    exact ⟨by simp, fun fid => rfl⟩
  | append_singleton fields f ih =>
    intro h
    rw [fileAll, List.foldlM_append] at h
    obtain ⟨m₁, hrun, hlast⟩ := Option.bind_eq_some_iff.mp h
    obtain ⟨hknown, hget⟩ := ih hrun
    rw [List.foldlM_cons] at hlast
    obtain ⟨m₂, hone, hnil⟩ := Option.bind_eq_some_iff.mp hlast
    obtain ⟨fid, hfid, hinsert⟩ := Option.bind_eq_some_iff.mp hone
    cases hnil
    cases hinsert
    refine ⟨fun g hg => ?_, fun k => ?_⟩
    · rcases List.mem_append.mp hg with hg | hg
      · exact hknown g hg
      · cases List.mem_singleton.mp hg
        exact ⟨fid, hfid⟩
    · rw [getElem?_insert_eq, lastUnder, List.reverse_append, List.reverse_singleton,
        List.singleton_append, List.find?_cons, hfid]
      by_cases hk : k = fid
      · subst hk
        simp
      · rw [if_neg hk, hget]
        simp [lastUnder, Ne.symm hk]

theorem exists_fileAll {d : Doc} {fields : List (Bytes × Bytes)}
    (h : ∀ f ∈ fields, ∃ fid, d.schema.getFieldId f.1 = some fid) (m : ExtTreeMap UInt8 Bytes) :
    ∃ m', d.fileAll fields m = some m' :=
  (foldlM_serialize d.schema h m).imp fun _ hrun => hrun.1

/-- What a document and its copy are serialized to. -/
theorem serialize_copy {d : Doc} {m : ExtTreeMap UInt8 Bytes} (h : d.serialize = some m) :
    ∃ m', d.copy.serialize = some m' ∧ (∀ fid, m'[fid]? = d.lastUnder d.serializedScalars fid) ∧
      ∀ fid, m[fid]? = (d.lastUnder d.serializedVectors fid).or m'[fid]? := by
  rw [serialize_eq, serializedFields_split, fileAll, List.foldlM_append] at h
  obtain ⟨m', hscalars, hvectors⟩ := Option.bind_eq_some_iff.mp h
  refine ⟨m', ?_, fun fid => ?_, (getElem?_fileAll hvectors).2⟩
  · rw [serialize_eq, serializedFields_copy]
    exact hscalars
  · rw [(getElem?_fileAll hscalars).2, ExtTreeMap.getElem?_empty, Option.or_none]

/-- A copy has all maps of the original, so it is `Serialize` that decides. -/
theorem preserved_copy_iff (d : Doc) :
    d.Preserved d.copy ↔ ∀ m, d.serialize = some m → d.copy.serialize = some m :=
  ⟨Preserved.serialize, fun h => ⟨h, rfl, fun _ => rfl, fun _ => rfl, fun _ => rfl, fun _ => rfl⟩⟩

theorem move_eq_copy (d : Doc) : d.move = d.copy := rfl

/-- **When a copied or moved document is the same**: what each vector is put over is the vector
already.

`Serialize` files the scalars first and the vectors behind them, each under the id its name has in
the schema. A copy has the scalars only. So the two results agree under an id if no vector is filed
there, or if the last one filed there has the bytes of the last scalar. Where a field is not known
to the schema there is no result to compare. -/
theorem copy_move_preserved_iff (d : Doc) :
    (d.Preserved d.copy ∧ d.Preserved d.move) ↔
      ((∀ f ∈ d.serializedFields, ∃ fid, d.schema.getFieldId f.1 = some fid) →
        ∀ fid b, d.lastUnder d.serializedVectors fid = some b →
          d.lastUnder d.serializedScalars fid = some b) := by
  rw [move_eq_copy, and_self, preserved_copy_iff]
  constructor
  · intro h hknown fid b hb
    obtain ⟨m, hm⟩ := exists_fileAll hknown ∅
    obtain ⟨m', hm', hscalars, hall⟩ := serialize_copy hm
    cases hm'.symm.trans (h m hm)
    rw [← hscalars, hall, hb, Option.some_or]
  · intro h m hm
    obtain ⟨m', hm', hscalars, hall⟩ := serialize_copy hm
    have hover := h (getElem?_fileAll hm).1
    rw [hm', Option.some_inj]
    refine ExtTreeMap.ext_getElem? fun fid => ?_
    rw [hall fid]
    cases hb : d.lastUnder d.serializedVectors fid with
    | none => rw [Option.none_or]
    | some b => rw [Option.some_or, hscalars, hover fid b hb]

/-- A document with a vector of one float. -/
def vectorDoc : Doc :=
  ((Doc.new 1 (DocSchema.ofCalls [(primaryKeyName, .long 0), ([118], .floatVector [])])).addFieldValue
    [118] (.floatVector [0x3f800000])).build.2

/-- Its copy is serialized without the vector. -/
theorem vectorDoc_not_preserved : ¬ (vectorDoc.Preserved vectorDoc.copy ∧
    vectorDoc.Preserved vectorDoc.move) := by
  rintro ⟨h, -⟩
  have hvector : (vectorDoc.serialize.bind fun m => m[(1 : UInt8)]?) = some [0, 0, 0x80, 0x3f] := by
    decide +kernel
  have hcopy : (vectorDoc.copy.serialize.bind fun m => m[(1 : UInt8)]?) = none := by
    decide +kernel
  obtain ⟨m, hm, -⟩ := Option.bind_eq_some_iff.mp hvector
  rw [h.serialize m hm, ← hm, hvector] at hcopy
  cases hcopy

end Doc

end CxxLab.RocksdbLab
