import CxxLab.RocksdbLab.Documents
import CxxLab.RocksdbLab.Filters
import CxxLab.RocksdbLab.Values

/-!
# `RocksDBImpl::GetDoc` — a document is read back

`GetDoc` looks up where the document of a uid is, goes through the records there and puts the fields
together again, by the types its schema has for them. It does so for longs and strings. For floats
it has a variable that it never reads the record into: what the document gets is what happens to be
in it. And its upper bound is field 255, which it leaves out, so that a table with more than 255
fields has no document that can be built.

`getDoc_readsBack_iff` says that these two are all: whatever else was added before and after, the
document that was added last is the one that is read.
-/

set_option autoImplicit false

namespace CxxLab.RocksdbLab

open Std CxxLab.Lib RocksDBImpl

/-! ## The query -/

/-- One turn of the loop of `GetDoc`. `garbage` is what is in the `float` it does not initialise,
when it comes to a field. -/
def readField (garbage : UInt8 → UInt32) (schema : DocSchema) (d : Doc) (kv : Bytes × Bytes) :
    Option Doc := do
  let fid ← kv.1[8 * 3 + 3]?
  let ftype ← schema.getFieldType fid
  let fname ← schema.getFieldName fid
  if ftype = FieldKind.long.typeValue then
    if fid = 0 then return d
    let value ← deserialize kv.2
    return d.addLongFieldValue fname value.toInt64
  else if ftype = FieldKind.float.typeValue then
    return d.addFloatFieldValue fname (garbage fid)
  else if ftype = FieldKind.string.typeValue then
    return d.addStringFieldValue fname kv.2
  else none

/-- `RocksDBImpl::GetDoc`: what `Build` says, and the document. There is no result where it follows a
null pointer or an assertion fails. -/
def RocksDBImpl.getDoc (impl : RocksDBImpl) (garbage : UInt8 → UInt32) (tableName : Bytes)
    (uid : Int64) : Option (Except Status (Bool × Doc)) :=
  match impl.cache.getTidByTname tableName with
  | none => some (.error .notFound)
  | some tid =>
    match impl.db[uidIdMappingKey tid (serialize uid.toUInt64)]? with
    | none => some (.error .notFound)
    | some sidId => do
      let schema ← impl.cache.getSchemaByTid tid
      let lower := fieldValuePrefix ++ serialize tid ++ sidId ++ [0]
      let upper := fieldValuePrefix ++ serialize tid ++ sidId ++ [255]
      if schema.fixed then
        let d ← (impl.db.scan lower (some upper)).foldlM (readField garbage schema)
          (Doc.new uid schema)
        return .ok d.build
      else none

/-! ## The loop -/

/-- The document while its fields are read: every value it has is the expected one. -/
structure Reading (schema : DocSchema) (expected : Bytes → Option Value) (d : Doc) : Prop where
  opened : d.fixed = false
  schema_eq : d.schema = schema
  pk : primaryKeyName ∈ d.fieldsSchema
  valued : ∀ name ∈ d.fieldsSchema, ∃ v, (name, v) ∈ d.values
  right : ∀ name v, (name, v) ∈ d.values → name ∈ d.fieldsSchema ∧ expected name = some v

namespace Reading

variable {schema : DocSchema} {expected : Bytes → Option Value} {d d' : Doc}

theorem new {uid : Int64} (h : expected primaryKeyName = some (.long uid)) :
    Reading schema expected (Doc.new uid schema) := by
  have hg := Gains.new uid schema
  have hvalues : ∀ f ∈ (Doc.new uid schema).values, f = (primaryKeyName, .long uid) := by
    intro f hf
    exact (hg.values f hf).resolve_left List.not_mem_nil
  have hpk := (hg.fields _).mpr (.inl rfl)
  refine ⟨hg.opened, hg.schema, hpk, fun name hname => ?_, fun name v hv => ?_⟩
  · rcases (hg.fields name).mp hname with rfl | hname
    · exact ⟨_, hg.own.resolve_left ExtTreeMap.not_mem_empty⟩
    · exact absurd hname ExtTreeMap.not_mem_empty
  · cases hvalues _ hv
    exact ⟨hpk, h⟩

theorem gains {name : Bytes} {v : Value} (h : Reading schema expected d) (hg : Gains d name v d')
    (hv : expected name = some v) : Reading schema expected d' where
  opened := hg.opened
  schema_eq := hg.schema.trans h.schema_eq
  pk := (hg.fields _).mpr (.inr h.pk)
  valued n hn := by
    have hold : ∀ n ∈ d.fieldsSchema, ∃ w, (n, w) ∈ d'.values := fun n hn =>
      (h.valued n hn).imp fun w hw => hg.kept _ hw
    rcases (hg.fields n).mp hn with rfl | hn
    · exact hg.own.elim (hold _) fun hown => ⟨v, hown⟩
    · exact hold n hn
  right n w hw := by
    rcases hg.values _ hw with hw | heq
    · exact ⟨(hg.fields n).mpr (.inr (h.right n w hw).1), (h.right n w hw).2⟩
    · cases heq
      exact ⟨(hg.fields _).mpr (.inl rfl), hv⟩

/-- The values at the end. -/
theorem value_eq (h : Reading schema expected d)
    (hall : ∀ name v, expected name = some v → name ∈ d.fieldsSchema) (name : Bytes) :
    d.value name = expected name := by
  cases hv : d.value name with
  | some v =>
    obtain ⟨l₁, l₂, hl, -⟩ := List.lookup_eq_some_iff.mp hv
    exact (h.right name v (by rw [hl]; simp)).2.symm
  | none =>
    cases he : expected name with
    | none => rfl
    | some v =>
      obtain ⟨w, hw⟩ := h.valued name (hall name v he)
      have hne := List.lookup_eq_none_iff.mp hv _ hw
      simp at hne

end Reading

/-- What `GetDoc` makes of a value, with `g` in its `float`. -/
def Value.seen (g : UInt32) : Value → Value
  | .float _ => .float g
  | v => v

/-- What `GetDoc` shows of a field of a document. -/
def Doc.seen (doc : Doc) (schema : DocSchema) (garbage : UInt8 → UInt32) (field : Bytes) :
    Option Value :=
  (doc.value field).map (Value.seen (garbage ((schema.getFieldId field).getD 0)))

section Loop

variable {schema : DocSchema} (hfixed : schema.fixed = true)
  (hsmall : schema.fieldsSchema.size ≤ 255)
include hfixed hsmall

/-- **One turn.** -/
theorem readField_turn {garbage : UInt8 → UInt32} {expected : Bytes → Option Value} {d : Doc}
    {name key : Bytes} {fid : UInt8} {v : Value} (h : Reading schema expected d)
    (hpk : schema.getFieldId primaryKeyName = some 0)
    (hfid : schema.getFieldId name = some fid) (hkind : schema.fieldsSchema[name]? = some v.kind)
    (hsupported : v.kind ≠ .floatVector) (hkey : key[8 * 3 + 3]? = some fid)
    (hexpected : expected name = some (v.seen (garbage fid))) :
    ∃ d', readField garbage schema d (key, v.serialize) = some d' ∧ Reading schema expected d' ∧
      name ∈ d'.fieldsSchema ∧ ∀ n, n ∈ d.fieldsSchema → n ∈ d'.fieldsSchema := by
  obtain ⟨htype, hname⟩ := DocSchema.getField_of_id hfixed (Nat.le_succ_of_le hsmall) hfid hkind
  have hgains : ∀ {d'}, Gains d name (v.seen (garbage fid)) d' → Reading schema expected d' ∧
      name ∈ d'.fieldsSchema ∧ ∀ n, n ∈ d.fieldsSchema → n ∈ d'.fieldsSchema := fun hg =>
    ⟨h.gains hg hexpected, (hg.fields name).mpr (.inl rfl), fun n hn => (hg.fields n).mpr (.inr hn)⟩
  simp only [readField, hkey, htype, hname, Option.bind_eq_bind, Option.bind_some]
  cases v with
  | long x =>
    by_cases hzero : fid = 0
    · -- The primary key is there from the beginning.
      have hpk : name = primaryKeyName :=
        DocSchema.getFieldId_inj hfixed (Nat.le_succ_of_le hsmall) (hzero ▸ hfid) hpk
      exact ⟨d, by simp [Value.kind, hzero], h, hpk ▸ h.pk, fun n hn => hn⟩
    · refine ⟨d.addLongFieldValue name x, ?_, hgains (Gains.add h.opened (.long x))⟩
      simp [Value.kind, Value.serialize, hzero]
  | float x =>
    refine ⟨d.addFloatFieldValue name (garbage fid), ?_,
      hgains (Gains.add h.opened (.float (garbage fid)))⟩
    simp [Value.kind, FieldKind.typeValue]
  | string x =>
    refine ⟨d.addStringFieldValue name x, ?_, hgains (Gains.add h.opened (.string x))⟩
    simp [Value.kind, FieldKind.typeValue, Value.serialize]
  | floatVector x => exact absurd rfl hsupported

end Loop

/-! ## The records of a document -/

/-- **The whole loop**, over records of a document: every value is what it should be, and every
field the loop comes to is there. -/
theorem foldlM_readField {schema : DocSchema} (hfixed : schema.fixed = true)
    (hsmall : schema.fieldsSchema.size ≤ 255) {doc : Doc} (htyped : doc.Typed schema)
    (hpk : schema.getFieldId primaryKeyName = some 0)
    (hkinds : ∀ field : Bytes, schema.fieldsSchema[field]? ≠ some .floatVector) {pk : Int64}
    (hvalue : doc.value primaryKeyName = some (.long pk)) (tid s o : UInt64)
    {records : List (Bytes × Bytes)} (garbage : UInt8 → UInt32)
    (hrecords : ∀ kv ∈ records, ∃ fid field v, kv = (fieldValueKey tid (addr s o) fid, v.serialize) ∧
      schema.getFieldId field = some fid ∧ (field, v) ∈ doc.values) :
    ∃ d, records.foldlM (readField garbage schema) (Doc.new pk schema) = some d ∧
      Reading schema (doc.seen schema garbage) d ∧
      ∀ kv ∈ records, ∀ fid field, kv.1 = fieldValueKey tid (addr s o) fid →
        schema.getFieldId field = some fid → field ∈ d.fieldsSchema := by
  have hseen : ∀ {field v}, (field, v) ∈ doc.values → doc.seen schema garbage field =
      some (v.seen (garbage ((schema.getFieldId field).getD 0))) := by
    intro field v hv
    rw [Doc.seen, htyped.value_eq_some.mpr hv]
    rfl
  have hloop := foldlM_collect (f := readField garbage schema)
    (I := Reading schema (doc.seen schema garbage))
    (P := fun kv => ∃ fid field v, kv = (fieldValueKey tid (addr s o) fid, v.serialize) ∧
      schema.getFieldId field = some fid ∧ (field, v) ∈ doc.values)
    (D := fun d kv => ∀ fid field, kv.1 = fieldValueKey tid (addr s o) fid →
      schema.getFieldId field = some fid → field ∈ d.fieldsSchema)
    (fun d kv hd ⟨fid, field, v, hkv, hfid, hv⟩ => by
      subst hkv
      have hkey : (fieldValueKey tid (addr s o) fid)[8 * 3 + 3]? = some fid := by
        rw [fieldValueKey, List.getElem?_append_right (by simp [fieldValuePrefix])]
        simp [fieldValuePrefix]
      have hkind := htyped.kinds _ hv
      obtain ⟨d', hturn, hd', hown, hgrow⟩ := readField_turn hfixed hsmall hd hpk hfid hkind
        (fun hvec => hkinds field (hkind.trans (congrArg some hvec))) hkey
        (by rw [hseen hv, hfid, Option.getD_some])
      refine ⟨d', hturn, hd', fun fid' field' heq hfid' => ?_,
        fun b hb fid' field' heq hfid' => hgrow _ (hb fid' field' heq hfid')⟩
      cases List.append_cancel_left heq
      rw [← DocSchema.getFieldId_inj hfixed (Nat.le_succ_of_le hsmall) hfid hfid']
      exact hown)
    (Reading.new (hseen (htyped.value_eq_some.mp hvalue))) hrecords
  obtain ⟨d, hrun, hd, hall, -⟩ := hloop
  exact ⟨d, hrun, hd, hall⟩

/-- **The records between the bounds** are those of the document, without field 255. -/
theorem mem_scan_fields {impl : RocksDBImpl} (hc : Catalog impl) {tid s o : UInt64}
    {key val : Bytes} :
    (key, val) ∈ impl.db.scan (fieldValueKey tid (addr s o) 0)
      (some (fieldValueKey tid (addr s o) 255)) ↔
      ∃ fid, fid < 255 ∧ key = fieldValueKey tid (addr s o) fid ∧
        impl.db.read (.fieldValue tid s o fid) = some val := by
  have hcompare : ∀ f g : UInt8, compare (fieldValueKey tid (addr s o) f)
      (fieldValueKey tid (addr s o) g) = compare [f] [g] := fun f g => compare_append_left _ _ _
  rw [KVStore.mem_scan]
  constructor
  · rintro ⟨hget, hlow, hupper⟩
    have hhigh := hupper _ rfl
    obtain ⟨k, rfl⟩ := hc.keys key (mem_iff_exists.mpr ⟨val, hget⟩)
    obtain ⟨s', o', f, rfl, rest, hrest⟩ := Key.exists_fieldValue hlow hhigh
    obtain ⟨haddr, -⟩ := List.append_inj hrest (by simp)
    obtain ⟨rfl, rfl⟩ := addr_inj.mp haddr
    refine ⟨f, ?_, rfl, hget⟩
    rw [Key.encode, hcompare, List.compare_cons_cons] at hhigh
    cases hf : compare f 255 with
    | lt => exact Std.compare_eq_lt.mp hf
    | eq => simp [hf] at hhigh
    | gt => simp [hf] at hhigh
  · rintro ⟨fid, hlt, rfl, hread⟩
    refine ⟨hread, ?_, ?_⟩
    · rw [hcompare]
      exact zero_le_bytes [fid]
    · rintro u hu
      cases hu
      rw [hcompare, List.compare_cons_cons, Std.compare_eq_lt.mpr hlt]
      rfl

/-! ## The document that is read -/

theorem getSchemaByTid_eq {impl : RocksDBImpl} (hc : Catalog impl) {name : Bytes}
    {tid sid offset : UInt64} {schema : DocSchema} (ht : Table impl name tid schema sid offset) :
    impl.cache.getSchemaByTid tid = some schema := by
  rw [DBCache.getSchemaByTid, getD_eq ((hc.inverse name tid).mp ht.id)]
  exact ht.schema

/-- What `GetDoc` does with a document that is stored. -/
theorem getDoc_at {impl : RocksDBImpl} (hc : Catalog impl) {name : Bytes}
    {tid sid offset s o : UInt64} {schema : DocSchema} (ht : Table impl name tid schema sid offset)
    {pk : Int64} (hplace : impl.db.read (.uidIdMapping tid (serialize pk.toUInt64)) = some (addr s o))
    (garbage : UInt8 → UInt32) :
    impl.getDoc garbage name pk =
      ((impl.db.scan (fieldValueKey tid (addr s o) 0) (some (fieldValueKey tid (addr s o) 255))).foldlM
        (readField garbage schema) (Doc.new pk schema)).map fun d => .ok d.build := by
  have htid : impl.cache.getTidByTname name = some tid := ht.id
  have hplace : impl.db[uidIdMappingKey tid (serialize pk.toUInt64)]? = some (addr s o) := hplace
  have hschema := getSchemaByTid_eq hc ht
  simp only [RocksDBImpl.getDoc, htid, hplace, hschema, Option.bind_eq_bind, Option.bind_some,
    hc.built name schema ht.schema, if_true]
  rw [Option.map_eq_bind]
  rfl

section ReadBack

variable {ops : List Op} {impl : RocksDBImpl} {name : Bytes} {tid sid offset : UInt64}
  {schema : DocSchema} {docs : ExtTreeMap Bytes Fields} {m : Fields}

theorem Refines.exists_place (h : Refines ops impl) (ht : Table impl name tid schema sid offset)
    (hdocs : (collections ops)[name]? = some docs) {uid : Bytes} (huid : docs[uid]? = some m) :
    ∃ s o, impl.db.read (.uidIdMapping tid uid) = some (addr s o) ∧
      ∀ fid, impl.db.read (.fieldValue tid s o fid) = m[fid]? := by
  have hstored := h.stored name tid schema sid offset docs ht hdocs
  obtain ⟨a, ha⟩ := Option.isSome_iff_exists.mp ((hstored.uids uid).mpr (mem_iff_exists.mpr ⟨m, huid⟩))
  obtain ⟨s, o, rfl⟩ := (h.layout.table ht).located uid a ha
  exact ⟨s, o, ha, hstored.values uid m s o huid ha⟩

/-- **A table with up to 255 fields**: the document can be built, and has all values but those of
floats. -/
theorem Refines.getDoc_eq (h : Refines ops impl) (ht : Table impl name tid schema sid offset)
    (hdocs : (collections ops)[name]? = some docs) {doc : Doc} (htyped : doc.Typed schema)
    (hm : doc.serialize = some m) {pk : Int64}
    (hvalue : doc.value primaryKeyName = some (.long pk))
    (hstored : docs[serialize pk.toUInt64]? = some m)
    (hpk : schema.getFieldId primaryKeyName = some 0)
    (hkinds : ∀ field : Bytes, schema.fieldsSchema[field]? ≠ some .floatVector)
    (hsmall : schema.fieldsSchema.size ≤ 255) (garbage : UInt8 → UInt32) :
    ∃ d, impl.getDoc garbage name pk = some (.ok (true, d)) ∧
      ∀ field, d.value field = doc.seen schema garbage field := by
  have hc := h.layout.catalog
  have hfixed := hc.built name schema ht.schema
  obtain ⟨s, o, hplace, hvalues⟩ := h.exists_place ht hdocs hstored
  obtain ⟨m', hm', hfields⟩ := htyped.serialize hfixed
  cases hm.symm.trans hm'
  obtain ⟨d, hrun, hd, hall⟩ := foldlM_readField hfixed hsmall htyped hpk hkinds hvalue
    tid s o garbage fun kv (hkv : kv ∈ impl.db.scan _ _) => by
      obtain ⟨fid, -, hkey, hread⟩ := (mem_scan_fields hc).mp hkv
      rw [hvalues] at hread
      obtain ⟨field, v, hfid, hv⟩ := htyped.exists_value hfixed
        ((hfields fid).mp (mem_iff_exists.mpr ⟨_, hread⟩))
      have hval := htyped.getElem?_serialize hfixed (Nat.le_succ_of_le hsmall) hm hv hfid
      exact ⟨fid, field, v, Prod.ext hkey (Option.some_inj.mp (hread.symm.trans hval)), hfid, hv⟩
  have hmem : ∀ {field v}, (field, v) ∈ doc.values → field ∈ d.fieldsSchema := by
    intro field v hv
    have hin := mem_iff_exists.mpr ⟨_, htyped.kinds _ hv⟩
    obtain ⟨fid, hfid⟩ := mem_iff_exists.mp ((DocSchema.mem_fieldsNameId hfixed).mpr hin)
    have hlt := (DocSchema.exists_fieldId_iff hfixed).mp ⟨field, hfid⟩
    have hval := htyped.getElem?_serialize hfixed (Nat.le_succ_of_le hsmall) hm hv hfid
    refine hall _ ((mem_scan_fields hc).mpr ⟨fid, ?_, rfl, (hvalues fid).trans hval⟩) fid field rfl hfid
    exact UInt8.lt_iff_toNat_lt.mpr (Nat.lt_of_lt_of_le hlt hsmall)
  have hseen : ∀ field v, doc.seen schema garbage field = some v → ∃ w, (field, w) ∈ doc.values := by
    intro field v hv
    obtain ⟨w, hw, -⟩ := Option.map_eq_some_iff.mp hv
    exact ⟨w, htyped.value_eq_some.mp hw⟩
  have hsize : d.fieldsSchema.size = schema.fieldsSchema.size := by
    refine size_eq_of_keys fun field => ⟨fun hin => ?_, fun hin => ?_⟩
    · obtain ⟨v, hv⟩ := hd.valued field hin
      obtain ⟨w, hw⟩ := hseen field v (hd.right field v hv).2
      exact mem_iff_exists.mpr ⟨_, htyped.kinds _ hw⟩
    · obtain ⟨v, hv⟩ := htyped.exists_value_of_mem (ExtTreeMap.mem_keys.mpr hin)
      exact hmem hv
  refine ⟨{ d.toDocSchema.build with schema := d.schema }, ?_, fun field => ?_⟩
  · rw [getDoc_at hc ht hplace, hrun, Option.map_some, Doc.build, hd.schema_eq,
      if_neg (not_not.mpr hsize)]
  · rw [← hd.value_eq (fun field v hv => (hseen field v hv).elim fun w => hmem) field,
      DocSchema.value, DocSchema.value, DocSchema.values_build]

/-- A turn adds no name but that of its field. -/
theorem readField_names {garbage : UInt8 → UInt32} {d d' : Doc} {kv : Bytes × Bytes} {fid : UInt8}
    (hkey : kv.1[8 * 3 + 3]? = some fid) (hopen : d.fixed = false)
    (h : readField garbage schema d kv = some d') :
    d'.fixed = false ∧ d'.schema = d.schema ∧
      ∀ n ∈ d'.fieldsSchema, n ∈ d.fieldsSchema ∨ schema.getFieldName fid = some n := by
  simp only [readField, hkey, Option.bind_eq_bind, Option.bind_some] at h
  obtain ⟨ftype, -, h⟩ := Option.bind_eq_some_iff.mp h
  obtain ⟨fname, hname, h⟩ := Option.bind_eq_some_iff.mp h
  have hgains : ∀ {v}, Gains d fname v d' → d'.fixed = false ∧ d'.schema = d.schema ∧
      ∀ n ∈ d'.fieldsSchema, n ∈ d.fieldsSchema ∨ schema.getFieldName fid = some n := fun hg =>
    ⟨hg.opened, hg.schema, fun n hn => ((hg.fields n).mp hn).elim (fun heq => .inr (heq ▸ hname)) .inl⟩
  split at h
  · split at h
    · cases h
      exact ⟨hopen, rfl, fun n hn => .inl hn⟩
    · obtain ⟨value, -, h⟩ := Option.bind_eq_some_iff.mp h
      cases h
      exact hgains (Gains.add hopen (.long _))
  · split at h
    · cases h
      exact hgains (Gains.add hopen (.float _))
    · split at h
      · cases h
        exact hgains (Gains.add hopen (.string _))
      · cases h

/-- The fields up to 254 and the primary key are not all, if there are more than 255. -/
theorem length_names_lt (hfixed : schema.fixed = true)
    (hpk : schema.getFieldId primaryKeyName = some 0) (hlarge : 255 < schema.fieldsSchema.size)
    {names : List Bytes} (hnodup : names.Nodup)
    (hnames : ∀ n ∈ names, n = primaryKeyName ∨ ∃ fid : UInt8, fid < 255 ∧
      schema.getFieldName fid = some n) : names.length < schema.fieldsSchema.size := by
  have hlist : schema.fieldsIdName = schema.fieldsSchema.toList.map Prod.fst :=
    DocSchema.fieldsIdName_eq hfixed
  obtain ⟨i, kind, hi, hzero⟩ := (DocSchema.getFieldId_eq_some hfixed).mp hpk
  have hlt := (List.getElem?_eq_some_iff.mp hi).1
  rw [ExtTreeMap.length_toList] at hlt
  have hfirst : schema.fieldsIdName[i]? = some primaryKeyName := by
    rw [hlist, List.getElem?_map, hi]
    rfl
  have htake : ∀ fid : UInt8, fid < 255 → ∀ n, schema.getFieldName fid = some n →
      n ∈ schema.fieldsIdName.take 255 := by
    intro fid hfid n hn
    have hfid : fid.toNat < 255 := UInt8.lt_iff_toNat_lt.mp hfid
    exact List.mem_of_getElem? ((List.getElem?_take_of_lt hfid).trans hn)
  have hlen : (schema.fieldsIdName.take 255).length = 255 := by
    rw [List.length_take, hlist, List.length_map, ExtTreeMap.length_toList]
    exact Nat.min_eq_left (Nat.le_of_lt hlarge)
  rcases Nat.eq_zero_or_pos i with rfl | hpos
  · -- The primary key is the first field.
    have hsub : names ⊆ schema.fieldsIdName.take 255 := by
      intro n hn
      rcases hnames n hn with rfl | ⟨fid, hfid, hname⟩
      · exact List.mem_of_getElem? ((List.getElem?_take_of_lt (by decide)).trans hfirst)
      · exact htake fid hfid n hname
    have hle := (hnodup.subperm hsub).length_le
    omega
  · -- It is the first one modulo 256.
    have hmod : i % 256 = 0 := congrArg UInt8.toNat hzero
    have hsub : names ⊆ primaryKeyName :: schema.fieldsIdName.take 255 := by
      intro n hn
      rcases hnames n hn with rfl | ⟨fid, hfid, hname⟩
      · exact List.mem_cons_self
      · exact List.mem_cons_of_mem _ (htake fid hfid n hname)
    have hle := (hnodup.subperm hsub).length_le
    rw [List.length_cons, hlen] at hle
    omega

/-- **A table with more fields**: no document can be built. -/
theorem Refines.getDoc_large (h : Refines ops impl) (ht : Table impl name tid schema sid offset)
    (hpk : schema.getFieldId primaryKeyName = some 0) (hlarge : 255 < schema.fieldsSchema.size)
    {garbage : UInt8 → UInt32} {pk : Int64} {built : Bool} {d : Doc}
    (hget : impl.getDoc garbage name pk = some (.ok (built, d))) : built = false := by
  have hc := h.layout.catalog
  have hfixed := hc.built name schema ht.schema
  have htid : impl.cache.getTidByTname name = some tid := ht.id
  cases hplace : impl.db.read (.uidIdMapping tid (serialize pk.toUInt64)) with
  | none =>
    have hplace : impl.db[uidIdMappingKey tid (serialize pk.toUInt64)]? = none := hplace
    simp [RocksDBImpl.getDoc, htid, hplace] at hget
  | some a =>
    obtain ⟨s, o, rfl⟩ := (h.layout.table ht).located _ a hplace
    rw [getDoc_at hc ht hplace] at hget
    obtain ⟨d₀, hrun, hbuild⟩ := Option.map_eq_some_iff.mp hget
    obtain ⟨-, hschema, hnames⟩ := foldlM_inv (I := fun d : Doc => d.fixed = false ∧
        d.schema = schema ∧ ∀ n ∈ d.fieldsSchema, n = primaryKeyName ∨ ∃ fid : UInt8, fid < 255 ∧
          schema.getFieldName fid = some n)
      (P := fun kv => ∃ fid : UInt8, fid < 255 ∧ kv.1[8 * 3 + 3]? = some fid)
      (fun d kv d' ⟨fid, hfid, hkey⟩ ⟨hopen, hschema, hnames⟩ hturn => by
        obtain ⟨hopen', hschema', hnames'⟩ := readField_names hkey hopen hturn
        refine ⟨hopen', hschema'.trans hschema, fun n hn => ?_⟩
        exact (hnames' n hn).elim (hnames n) fun hname => .inr ⟨fid, hfid, hname⟩)
      (fun kv hkv => by
        obtain ⟨fid, hfid, hkey, -⟩ := (mem_scan_fields hc).mp hkv
        refine ⟨fid, hfid, ?_⟩
        rw [hkey, fieldValueKey, List.getElem?_append_right (by simp [fieldValuePrefix])]
        simp [fieldValuePrefix])
      (by
        have hg := Gains.new pk schema
        exact ⟨hg.opened, hg.schema, fun n hn =>
          .inl (((hg.fields n).mp hn).resolve_right ExtTreeMap.not_mem_empty)⟩)
      hrun
    have hlt := length_names_lt hfixed hpk hlarge (ExtTreeMap.nodup_keys (t := d₀.fieldsSchema))
      fun n hn => hnames n (ExtTreeMap.mem_keys.mp hn)
    rw [ExtTreeMap.length_keys] at hlt
    rw [Doc.build, hschema, if_pos (Nat.ne_of_lt hlt)] at hbuild
    cases hbuild
    rfl

end ReadBack

/-! ## The last document -/

/-- What a call leaves of the documents of a table: all, or all but the one it adds. -/
theorem Collections.step_getElem? {cs : Collections} {name uid : Bytes} {m : Fields} {op : Op}
    {docs : ExtTreeMap Bytes Fields} (hdocs : cs[name]? = some docs) (hm : docs[uid]? = some m)
    (hop : ∀ doc m', op = .addDoc name doc true → doc.serialize = some m' →
      m'[(0 : UInt8)]? ≠ some uid) :
    ∃ docs', (cs.step op)[name]? = some docs' ∧ docs'[uid]? = some m := by
  unfold Collections.step
  split
  · split
    · exact ⟨docs, hdocs, hm⟩
    · next hnew =>
      rw [not_or] at hnew
      rw [getElem?_insert_eq, if_neg]
      · exact ⟨docs, hdocs, hm⟩
      · rintro rfl
        exact hnew.1 (mem_iff_exists.mpr ⟨docs, hdocs⟩)
  · next name' doc =>
    split
    · next docs' uid' m' hdocs' hdoc =>
      rw [getElem?_insert_eq]
      split
      · next heq =>
        subst heq
        cases hdocs.symm.trans hdocs'
        refine ⟨_, rfl, ?_⟩
        obtain ⟨m₀, hm₀, hfirst⟩ := Option.bind_eq_some_iff.mp hdoc
        obtain ⟨uid₀, huid₀, hpair⟩ := Option.map_eq_some_iff.mp hfirst
        cases hpair
        rw [getElem?_insert_eq, if_neg]
        · exact hm
        · rintro rfl
          exact hop doc m' rfl hm₀ huid₀
      · exact ⟨docs, hdocs, hm⟩
    · exact ⟨docs, hdocs, hm⟩
  · exact ⟨docs, hdocs, hm⟩

/-- **The document that is stored is the last one added.** -/
theorem collections_last {pre post : List Op} {name uid : Bytes} {doc : Doc} {m : Fields}
    (hname : name ∈ collections pre) (hm : doc.serialize = some m) (huid : m[(0 : UInt8)]? = some uid)
    (hlast : ∀ doc' m', .addDoc name doc' true ∈ post → doc'.serialize = some m' →
      m'[(0 : UInt8)]? ≠ some uid) :
    ∃ docs, (collections (pre ++ .addDoc name doc true :: post))[name]? = some docs ∧
      docs[uid]? = some m := by
  induction post using List.reverseRecOn with
  | nil =>
    obtain ⟨docs, hdocs⟩ := mem_iff_exists.mp hname
    refine ⟨docs.insert uid m, ?_, by rw [getElem?_insert_eq, if_pos rfl]⟩
    rw [collections_concat, Collections.step, hdocs, hm]
    simp only [Option.bind_some, huid, Option.map_some]
    rw [getElem?_insert_eq, if_pos rfl]
  | append_singleton post op ih =>
    obtain ⟨docs, hdocs, hstored⟩ := ih fun doc' m' hmem =>
      hlast doc' m' (List.mem_append_left _ hmem)
    rw [← List.cons_append, ← List.append_assoc, collections_concat]
    refine Collections.step_getElem? hdocs hstored fun doc' m' hop => hlast doc' m' ?_
    rw [hop]
    exact List.mem_append_right _ (List.mem_singleton_self _)

/-- `GetDoc` shows the fields of a document, whatever is in its `float`.

`garbage` is what that variable, which is not initialised, has in it for each field. The document
has to be found and built, and to have the same value, or none, for each name. -/
def ReadsBack (impl : RocksDBImpl) (name : Bytes) (pk : Int64) (doc : Doc) : Prop :=
  ∀ garbage, ∃ d, impl.getDoc garbage name pk = some (.ok (true, d)) ∧
    ∀ field, d.value field = doc.value field

/-- Where there is a float, there is something else it could be. -/
theorem exists_seen_ne {doc : Doc} (schema : DocSchema) {field : Bytes} {x : UInt32}
    (h : doc.value field = some (.float x)) :
    ∃ garbage, doc.seen schema garbage field ≠ doc.value field := by
  refine ⟨fun _ => x + 1, ?_⟩
  rw [Doc.seen, h, Option.map_some, Value.seen]
  intro heq
  have hne : x + 1 ≠ x := by simp
  exact hne (Value.float.inj (Option.some_inj.mp heq))

theorem Doc.Typed.seen_eq {doc : Doc} {schema : DocSchema} (htyped : doc.Typed schema)
    (hfloats : ∀ field : Bytes, schema.fieldsSchema[field]? ≠ some .float)
    (garbage : UInt8 → UInt32) (field : Bytes) : doc.seen schema garbage field = doc.value field := by
  rw [Doc.seen]
  cases hv : doc.value field with
  | none => rfl
  | some v =>
    have hkind := htyped.kinds _ (htyped.value_eq_some.mp hv)
    cases v with
    | float x => exact absurd hkind (hfloats field)
    | long x => rfl
    | string x => rfl
    | floatVector x => rfl

/-- A table keeps its schema. -/
theorem getSchema_step {impl impl' : RocksDBImpl} {op : Op} {name : Bytes} {schema : DocSchema}
    (hc : Catalog impl) (h : step impl op = some impl')
    (hschema : impl.cache.getSchema name = some schema) :
    impl'.cache.getSchema name = some schema := by
  rcases step_cases hc.registry h with rfl | ⟨name', schema', rfl, hnew, -, rfl⟩ |
    ⟨name', docs, tid, schema', sid, offset, c, -, ht, hrun, rfl⟩
  · exact hschema
  · have hne : name ≠ name' := by
      rintro rfl
      exact hc.read_table_eq_none.mp hnew ((hc.schemas name).mp (mem_iff_exists.mpr ⟨schema, hschema⟩))
    rw [DBCache.getSchema, RocksDBImpl.created, getElem?_insert_eq, if_neg hne]
    exact hschema
  · exact hschema

theorem getSchema_run {pre : List Op} (rest : List Op) {impl₀ : RocksDBImpl} {name : Bytes} {schema : DocSchema}
    (hproper : Along step Proper opened (pre ++ rest)) (htables : tableCount (pre ++ rest) < 2 ^ 64)
    (hcount : docCount (pre ++ rest) < slotLimit) (hrun : runSteps step opened pre = some impl₀)
    (hschema : impl₀.cache.getSchema name = some schema) :
    ∃ impl, runSteps step opened (pre ++ rest) = some impl ∧ Refines (pre ++ rest) impl ∧
      impl.cache.getSchema name = some schema := by
  obtain ⟨impl, hall, href⟩ := Refines.run hproper htables hcount
  refine ⟨impl, hall, href, ?_⟩
  induction rest using List.reverseRecOn generalizing impl with
  | nil =>
    rw [List.append_nil] at hall
    cases hrun.symm.trans hall
    exact hschema
  | append_singleton rest op ih =>
    rw [← List.append_assoc] at hproper htables hcount hall
    have hinit : pre ++ rest <+: pre ++ rest ++ [op] := List.prefix_append _ _
    have hproper := hproper.initial hinit
    have htables := Nat.lt_of_le_of_lt (tableCount_le hinit) htables
    have hcount := Nat.lt_of_le_of_lt (docCount_le hinit) hcount
    obtain ⟨impl₁, hrun₁, href₁⟩ := Refines.run hproper htables hcount
    rw [runSteps_concat, hrun₁, Option.bind_some] at hall
    exact getSchema_step href₁.layout.catalog hall (ih hproper htables hcount impl₁ hrun₁ href₁)

/-- The uid of a document is the value of its primary key. -/
theorem Doc.Typed.uid_eq {d : Doc} {schema : DocSchema} (h : d.Typed schema)
    (hfixed : schema.fixed = true) (hsmall : schema.fieldsSchema.size ≤ 255)
    (hpk : schema.getFieldId primaryKeyName = some 0)
    (hlong : schema.fieldsSchema[primaryKeyName]? = some .long) {m : Fields}
    (hm : d.serialize = some m) :
    ∃ pk : Int64, d.value primaryKeyName = some (.long pk) ∧
      m[(0 : UInt8)]? = some (RocksdbLab.serialize pk.toUInt64) := by
  obtain ⟨v, hv, hkind⟩ := h.exists_value_of_kind hlong
  cases v with
  | long pk => exact ⟨pk, h.value_eq_some.mpr hv, h.getElem?_serialize hfixed (Nat.le_succ_of_le hsmall) hm hv hpk⟩
  | float x => cases hkind
  | string x => cases hkind
  | floatVector x => cases hkind

/-- The last document of a uid is found under it, and what is read of it is known. -/
theorem Refines.getDoc_last {pre post : List Op} {name : Bytes} {doc : Doc} {pk : Int64}
    {impl₀ impl : RocksDBImpl} {schema : DocSchema} (hbefore : Refines pre impl₀)
    (href : Refines (pre ++ .addDoc name doc true :: post) impl)
    (hschema₀ : impl₀.cache.getSchema name = some schema)
    (hschema : impl.cache.getSchema name = some schema)
    (hpk : schema.getFieldId primaryKeyName = some 0)
    (hkinds : ∀ field : Bytes, schema.fieldsSchema[field]? ≠ some .floatVector)
    (htyped : ∀ doc', .addDoc name doc' true ∈ .addDoc name doc true :: post → doc'.Typed schema)
    (hvalue : doc.value primaryKeyName = some (.long pk))
    (hlast : ∀ doc', .addDoc name doc' true ∈ post → doc'.value primaryKeyName ≠ some (.long pk))
    (hsmall : schema.fieldsSchema.size ≤ 255) (garbage : UInt8 → UInt32) :
    ∃ d, impl.getDoc garbage name pk = some (.ok (true, d)) ∧
      ∀ field, d.value field = doc.seen schema garbage field := by
  have hc := href.layout.catalog
  have hfixed := hc.built name schema hschema
  obtain ⟨tid, sid, offset, ht⟩ := hc.table hschema
  have hdoc := htyped doc List.mem_cons_self
  have hlong : schema.fieldsSchema[primaryKeyName]? = some .long :=
    hdoc.kinds _ (hdoc.value_eq_some.mp hvalue)
  obtain ⟨m, hm, -⟩ := hdoc.serialize hfixed
  obtain ⟨pk', hpk', huid⟩ := hdoc.uid_eq hfixed hsmall hpk hlong hm
  cases hvalue.symm.trans hpk'
  have hname : name ∈ collections pre := (hbefore.names name).mpr
    ((hbefore.layout.catalog.schemas name).mp (mem_iff_exists.mpr ⟨schema, hschema₀⟩))
  -- A later document with the same uid would have the same primary key.
  obtain ⟨docs, hdocs, hstored⟩ := collections_last hname hm huid
    fun doc' m' (hmem : .addDoc name doc' true ∈ post) hm' hsame => by
      obtain ⟨pk', hpk', huid'⟩ :=
        (htyped doc' (List.mem_cons_of_mem _ hmem)).uid_eq hfixed hsmall hpk hlong hm'
      have heq : longBytes pk' = longBytes pk := Option.some_inj.mp (huid'.symm.trans hsame)
      exact hlast doc' hmem (longBytes_inj.mp heq ▸ hpk')
  exact href.getDoc_eq ht hdocs hdoc hm hvalue hstored hpk hkinds hsmall garbage

/-- **The last document of a uid is read back if and only if** its table has at most 255 fields and
no floats among them.

The scan of `GetDoc` ends in front of field 255, so a document with more fields than that is not
complete and is not built. And for floats there is a variable that is never set, so what the new
document gets is what happens to be in it. Nothing else goes wrong: the store determines which
document is found (`Refines`), whatever was added before and after. -/
theorem getDoc_readsBack_iff {pre post : List Op} {name : Bytes} {doc : Doc} {pk : Int64}
    {impl₀ : RocksDBImpl} {schema : DocSchema}
    (hproper : Along step Proper opened (pre ++ .addDoc name doc true :: post))
    (htables : tableCount (pre ++ .addDoc name doc true :: post) < 2 ^ 64)
    (hcount : docCount (pre ++ .addDoc name doc true :: post) < slotLimit)
    (hrun : runSteps step opened pre = some impl₀)
    (hschema : impl₀.cache.getSchema name = some schema)
    (hpk : schema.getFieldId primaryKeyName = some 0)
    (hkinds : ∀ field : Bytes, schema.fieldsSchema[field]? ≠ some .floatVector)
    (htyped : ∀ doc', .addDoc name doc' true ∈ .addDoc name doc true :: post → doc'.Typed schema)
    (hvalue : doc.value primaryKeyName = some (.long pk))
    (hlast : ∀ doc', .addDoc name doc' true ∈ post →
      doc'.value primaryKeyName ≠ some (.long pk)) :
    ∃ impl, runSteps step opened (pre ++ .addDoc name doc true :: post) = some impl ∧
      (ReadsBack impl name pk doc ↔ schema.fieldsSchema.size ≤ 255 ∧
        ∀ field : Bytes, schema.fieldsSchema[field]? ≠ some .float) := by
  obtain ⟨impl, hall, href, hschema'⟩ := getSchema_run _ hproper htables hcount hrun hschema
  obtain ⟨tid, sid, offset, ht⟩ := href.layout.catalog.table hschema'
  have hdoc := htyped doc List.mem_cons_self
  obtain ⟨impl₁, hrun₁, hbefore⟩ := Refines.run (hproper.initial (List.prefix_append _ _))
    (Nat.lt_of_le_of_lt (tableCount_le (List.prefix_append _ _)) htables)
    (Nat.lt_of_le_of_lt (docCount_le (List.prefix_append _ _)) hcount)
  cases hrun.symm.trans hrun₁
  -- For up to 255 fields the document is there, and what is read is known.
  have hread := hbefore.getDoc_last href hschema hschema' hpk hkinds htyped hvalue hlast
  refine ⟨impl, hall, fun hback => ?_, ?_⟩
  · have hsmall : schema.fieldsSchema.size ≤ 255 := by
      by_contra hlarge
      obtain ⟨d, hget, -⟩ := hback fun _ => 0
      cases href.getDoc_large ht hpk (Nat.lt_of_not_le hlarge) hget
    refine ⟨hsmall, fun field hfloat => ?_⟩
    obtain ⟨v, hv, hkind⟩ := hdoc.exists_value_of_kind hfloat
    cases v with
    | float x =>
      obtain ⟨garbage, hne⟩ := exists_seen_ne schema (hdoc.value_eq_some.mpr hv)
      obtain ⟨d, hget, hseen⟩ := hread hsmall garbage
      obtain ⟨d', hget', hsame⟩ := hback garbage
      cases hget.symm.trans hget'
      exact hne ((hseen _).symm.trans (hsame _))
    | long x => cases hkind
    | string x => cases hkind
    | floatVector x => cases hkind
  · rintro ⟨hsmall, hfloats⟩ garbage
    obtain ⟨d, hget, hseen⟩ := hread hsmall garbage
    exact ⟨d, hget, fun field => (hseen field).trans (hdoc.seen_eq hfloats garbage field)⟩

theorem getSchema_createTable (name : Bytes) {schema : DocSchema} (h : schema.fixed = true) :
    ∃ impl, runSteps step opened [.createTable name schema] = some impl ∧
      impl.cache.getSchema name = some schema.copy := by
  have hnew : opened.db.read (.table name) = none := by rw [opened_read, if_neg (by simp)]
  refine ⟨opened.created name schema, ?_, ?_⟩
  · rw [runSteps, RocksDBImpl.step, createTable_eq, if_pos ⟨hnew, h⟩]
    rfl
  · rw [DBCache.getSchema, RocksDBImpl.created, getElem?_insert_eq, if_pos rfl]

/-- A run on the table of pairs. -/
theorem exists_pairs_table {rest : List Op}
    (hproper : Along step Proper opened ([.createTable pairs pairSchema] ++ rest))
    (htables : tableCount ([.createTable pairs pairSchema] ++ rest) < 2 ^ 64)
    (hcount : docCount ([.createTable pairs pairSchema] ++ rest) < slotLimit) :
    ∃ impl tid sid offset, runSteps step opened (.createTable pairs pairSchema :: rest) = some impl ∧
      Refines (.createTable pairs pairSchema :: rest) impl ∧
      Table impl pairs tid pairSchema sid offset := by
  obtain ⟨impl₀, hrun₀, hschema₀⟩ := getSchema_createTable pairs pairSchema_fixed
  obtain ⟨impl, hrun, href, hschema⟩ := getSchema_run rest hproper htables hcount hrun₀ hschema₀
  obtain ⟨tid, sid, offset, ht⟩ := href.layout.catalog.table hschema
  exact ⟨impl, tid, sid, offset, hrun, href, ht⟩

/-- A document that is replaced is read back as the new one. -/
theorem updateRun_readsBack : ∃ impl, runSteps step opened updateRun = some impl ∧
    ReadsBack impl pairs 1 (pairDoc 1 6) := by
  obtain ⟨impl₀, hrun₀, hschema₀⟩ := getSchema_createTable pairs pairSchema_fixed
  rw [show pairSchema.copy = pairSchema from rfl] at hschema₀
  obtain ⟨impl₁, hrun₁, -, hschema₁⟩ := getSchema_run
    [.addDoc pairs (pairDoc 1 5) true, .addDoc pairs (pairDoc 2 7) true]
    (by decide +kernel) (by decide) (by decide) hrun₀ hschema₀
  have htyped : (pairDoc 1 6).Typed pairSchema := by decide +kernel
  have hkinds : ∀ kind : FieldKind, kind ≠ .long →
      ∀ field : Bytes, pairSchema.fieldsSchema[field]? ≠ some kind := by
    have hall : ∀ f ∈ pairSchema.fieldsSchema.toList, f.2 = .long := by decide +kernel
    intro kind hne field hkind
    exact hne (hall _ (ExtTreeMap.mem_toList_iff_getElem?_eq_some.mpr hkind))
  obtain ⟨impl, hrun, hback⟩ := @getDoc_readsBack_iff _ [] pairs (pairDoc 1 6) 1 _ _
    (by decide +kernel) (by decide) (by decide) hrun₁ hschema₁ (by decide +kernel)
    (hkinds .floatVector (by decide))
    (fun doc' hmem => by
      cases List.mem_singleton.mp hmem
      exact htyped)
    (by decide +kernel) fun doc' hmem => absurd hmem List.not_mem_nil
  exact ⟨impl, hrun, hback.mpr ⟨pairSchema_small.1, hkinds .float (by decide)⟩⟩

/-- A number and a float. -/
def measureSchema : DocSchema :=
  (DocSchema.new.addLongField primaryKeyName 0 |>.addFloatField [97] 0).build

/-- A document with the float 1. -/
def measureDoc : Doc := ((Doc.new 1 measureSchema).addFloatFieldValue [97] 0x3f800000).build.2

/-- It is read back as something else: as 0, if that is what is in the variable. -/
theorem measure_not_readsBack : ∃ impl,
    runSteps step opened [.createTable pairs measureSchema, .addDoc pairs measureDoc true] = some impl ∧
      measureDoc.Typed measureSchema ∧ ¬ReadsBack impl pairs 1 measureDoc := by
  obtain ⟨impl, hrun⟩ : ∃ impl, runSteps step opened
      [.createTable pairs measureSchema, .addDoc pairs measureDoc true] = some impl :=
    Option.isSome_iff_exists.mp (by decide +kernel)
  refine ⟨impl, hrun, by decide +kernel, fun hback => ?_⟩
  obtain ⟨d, hget, hvalue⟩ := hback fun _ => 0
  have hzero : ((runSteps step opened
      [.createTable pairs measureSchema, .addDoc pairs measureDoc true]).bind fun impl =>
        (impl.getDoc (fun _ => 0) pairs 1).map fun r => r.toOption.map fun p => p.2.value [97]) =
      some (some (some (.float 0))) := by
    decide +kernel
  rw [hrun, Option.bind_some, hget] at hzero
  have hfloat : d.value [97] = some (.float 0) := Option.some_inj.mp (Option.some_inj.mp hzero)
  rw [hvalue] at hfloat
  exact absurd hfloat (by decide +kernel)

end CxxLab.RocksdbLab
