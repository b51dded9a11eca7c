import CxxLab.RocksdbLab.GetDoc
import CxxLab.RocksdbLab.Index
import Mathlib.Data.Set.Card
import Mathlib.Data.Set.List

/-!
# `RocksDBImpl::GetDocs` — the documents of the locations

`GetDocs` puts the field id of its filter behind each location, reads the record there and takes what
it finds for the uid. The uid is the value of field 0. So a document is the right one where the value
that was filtered by is the uid of its document: always for filters on `_id`, for the others by coincidence
(`Refines.uid_iff`).

What a filter matches is said in terms of the values that are stored (`Matches`), and not of the index. So the
other things that can go wrong belong to the condition as well: a filter with a number ends early, and the
order of the index is not that of the longs (`Findable`).
-/

set_option autoImplicit false

namespace CxxLab.RocksdbLab

open Std CxxLab.Lib RocksDBImpl

/-! ## What is asked for -/

/-- `Doc::GetPK`. -/
def Doc.getPK (d : Doc) : Option Int64 := d.longFields.head?.map Prod.snd

/-- **A matching address**: one with a long in the field that is from `lo` on and below `hi`. -/
def Matches (S : Store) (tid : UInt64) (fid : UInt8) (lo hi : Int64) (a : Bytes) : Prop :=
  ∃ s o v, a = addr s o ∧ S.read (.fieldValue tid s o fid) = some (longBytes v) ∧ lo ≤ v ∧ v < hi

/-- **`GetDocs` returns the documents that match**: one for each matching address, in the order
of the addresses, with the uid that has its record there. -/
def ReturnsMatches (impl : RocksDBImpl) (name : Bytes) (tid : UInt64) (fid : UInt8) (lo hi : Int64)
    (f : FieldFilter) : Prop :=
  ∃ docs addresses, impl.getDocs name [f] = some (.ok docs) ∧
    addresses.Pairwise (fun a b => compare a b = .lt) ∧
    (∀ a, a ∈ addresses ↔ Matches impl.db tid fid lo hi a) ∧
    List.Forall₂ (fun (doc : Doc) a => ∃ uid, doc.getPK = some uid ∧
      impl.db.read (.uidIdMapping tid (longBytes uid)) = some a) docs addresses

/-- A value that the order of the keys puts on the wrong side of the bounds. What is not a long is on the
wrong side if it comes between them at all. -/
def Astray (f : FieldFilter) (lo hi : Int64) (w : Bytes) (s o : UInt64) : Prop :=
  (∃ v, w = longBytes v ∧ Misplaced lo hi v) ∨ (¬∃ v, w = longBytes v) ∧ Between f w s o

/-- **What `GetDocs` can find**: as many matching addresses as the filter asks for at most, in a field without
values on the wrong side, each with a value that is the uid which has its record there. -/
structure Findable (S : Store) (tid : UInt64) (fid : UInt8) (lo hi : Int64) (f : FieldFilter) : Prop where
  enough : {a | Matches S tid fid lo hi a}.encard ≤ f.number
  placed : f.number = 0 ∨ ∀ s o w, S.read (.fieldValue tid s o fid) = some w → ¬Astray f lo hi w s o
  uid : ∀ s o v, S.read (.fieldValue tid s o fid) = some (longBytes v) → lo ≤ v → v < hi →
    S.read (.uidIdMapping tid (longBytes v)) = some (addr s o)

/-! ## The two loops -/

/-- **The index of every table is that of its values** where the index of the store is. -/
theorem Registry.indexedBy {impl : RocksDBImpl} (hr : Registry impl)
    (h : IndexConsistent impl.db) (tid : UInt64) : IndexedBy impl.db tid := by
  intro key hbegin
  constructor
  · intro hkey
    obtain ⟨k, rfl⟩ := hr.keys key hkey
    have hfamily : k.family = fieldIndexPrefix :=
      Key.family_eq rfl ((List.prefix_append _ _).trans hbegin)
    cases k <;> try cases hfamily
    case fieldIndex.refl t fid v s o =>
      rw [Key.encode, fieldIndexKey, List.append_assoc, List.append_assoc, List.append_assoc,
        List.prefix_append_right_inj] at hbegin
      have htid := List.prefix_of_prefix_length_le hbegin (List.prefix_append _ _) (by simp)
      cases serialize_inj.mp (htid.eq_of_length (by simp))
      exact ⟨fid, v, s, o, rfl, (h tid fid v s o).mp (ExtTreeMap.mem_iff_isSome_getElem?.mp hkey)⟩
  · rintro ⟨fid, v, s, o, rfl, hread⟩
    exact ExtTreeMap.mem_iff_isSome_getElem?.mpr ((h tid fid v s o).mpr hread)

theorem loadDoc_eq (S : Store) (tid : UInt64) (schema : DocSchema) (s o : UInt64) (fid : UInt8) :
    loadDoc S tid schema (addr s o ++ [fid]) =
      (S.read (.fieldValue tid s o fid)).bind fun v =>
        (deserialize v).map fun luid => Doc.new luid.toInt64 schema := by
  rw [loadDoc, ← List.append_assoc, Option.bind_eq_bind]
  refine congrArg _ (funext fun v => ?_)
  rw [Option.map_eq_bind]
  rfl

theorem loadDoc_long {S : Store} {tid : UInt64} {schema : DocSchema} {s o : UInt64} {fid : UInt8} {v : Int64}
    (h : S.read (.fieldValue tid s o fid) = some (longBytes v)) :
    loadDoc S tid schema (addr s o ++ [fid]) = some (Doc.new v schema) := by
  rw [loadDoc_eq, h, Option.bind_some, longBytes, deserialize_serialize, Option.map_some, v.toInt64_toUInt64]

/-! ## What is found -/

section Found

variable {S : Store} {tid : UInt64} {fid : UInt8} {lo hi : Int64} {f : FieldFilter}

/-- No value is astray for which the order of the keys decides as it should. -/
theorem not_astray_iff (hlow : f.lowerBound = longBytes lo) (hhigh : f.upperBound = longBytes hi) {w : Bytes}
    {s o : UInt64} : ¬Astray f lo hi w s o ↔ (Between f w s o ↔ InRange lo hi w) := by
  by_cases hlong : ∃ v, w = longBytes v
  · obtain ⟨v, rfl⟩ := hlong
    rw [between_long hlow hhigh, inRange_longBytes, unsigned_between_iff]
    refine not_congr ⟨?_, fun h => .inl ⟨v, rfl, h⟩⟩
    rintro (⟨v', heq, h⟩ | ⟨hnot, -⟩)
    · exact longBytes_inj.mp heq ▸ h
    · exact absurd ⟨v, rfl⟩ hnot
  · have hrange : ¬InRange lo hi w := fun ⟨v, hv, _⟩ => hlong ⟨v, hv⟩
    have hmisplaced : ¬∃ v, w = longBytes v ∧ Misplaced lo hi v := fun ⟨v, hv, _⟩ => hlong ⟨v, hv⟩
    rw [Astray, or_iff_right hmisplaced, and_iff_right hlong, iff_false_right hrange]

theorem matches_iff {a : Bytes} : Matches S tid fid lo hi a ↔
    ∃ s o w, a = addr s o ∧ S.read (.fieldValue tid s o fid) = some w ∧ InRange lo hi w := by
  constructor
  · rintro ⟨s, o, v, ha, hread, hrange⟩
    exact ⟨s, o, _, ha, hread, v, rfl, hrange⟩
  · rintro ⟨s, o, w, ha, hread, v, rfl, hrange⟩
    exact ⟨s, o, v, ha, hread, hrange⟩

theorem encard_matches {as : List Bytes} (hnodup : as.Nodup) (hmem : ∀ a, a ∈ as ↔ Matches S tid fid lo hi a) :
    {a | Matches S tid fid lo hi a}.encard = as.length := by
  have hset : {a | Matches S tid fid lo hi a} = as.toFinset := by
    ext a
    rw [Set.mem_ofPred_eq, ← hmem, List.coe_toFinset, Set.mem_ofPred_eq]
  rw [hset, Set.encard_coe_eq_coe_finsetCard, List.toFinset_card_of_nodup hnodup]

/-- **Where no value is astray, what comes between the keys is what matches.** -/
theorem mem_candidates_iff (hindex : IndexedBy S tid) (hlow : f.lowerBound = longBytes lo)
    (hhigh : f.upperBound = longBytes hi)
    (hplaced : ∀ s o w, S.read (.fieldValue tid s o fid) = some w → ¬Astray f lo hi w s o) (a : Bytes) :
    a ∈ candidates S tid fid f ↔ Matches S tid fid lo hi a := by
  rw [mem_candidates hindex, matches_iff]
  refine exists_congr fun s => exists_congr fun o => exists_congr fun w => and_congr_right fun _ =>
    and_congr_right fun hread => ?_
  exact (not_astray_iff hlow hhigh).mp (hplaced s o w hread)

/-- **Where all that matches can be found, it is what is found.** -/
theorem mem_found_iff (hindex : IndexedBy S tid) (hlow : f.lowerBound = longBytes lo)
    (hhigh : f.upperBound = longBytes hi) (henough : {a | Matches S tid fid lo hi a}.encard ≤ f.number)
    (hplaced : f.number = 0 ∨ ∀ s o w, S.read (.fieldValue tid s o fid) = some w → ¬Astray f lo hi w s o)
    (a : Bytes) : a ∈ (candidates S tid fid f).take f.number ↔ Matches S tid fid lo hi a := by
  rcases hplaced with hzero | hplaced
  · rw [hzero, Nat.cast_zero, nonpos_iff_eq_zero, Set.encard_eq_zero, Set.eq_empty_iff_forall_notMem] at henough
    rw [hzero, List.take_zero]
    exact iff_of_false List.not_mem_nil (henough a)
  · have hmem := mem_candidates_iff hindex hlow hhigh hplaced
    rw [encard_matches (nodup_candidates hindex) hmem, Nat.cast_le] at henough
    rw [List.take_of_length_le henough]
    exact hmem a

/-- Where anything comes between the keys of the bounds, these are in order. -/
theorem Between.lt (hlow : f.lowerBound = longBytes lo) (hhigh : f.upperBound = longBytes hi) {w : Bytes}
    {s o : UInt64} (h : Between f w s o) : lo.toUInt64 < hi.toUInt64 := by
  obtain ⟨hle, hlt⟩ := h
  rw [hlow, longBytes] at hle
  rw [hhigh, longBytes] at hlt
  exact (compare_long _ _ 0 0).2.mp (TransCmp.lt_of_isLE_of_lt hle hlt)

/-- Then a misplaced long is one between bounds that nothing matches. -/
theorem Misplaced.lt {v : Int64} (h : Misplaced lo hi v) (hlt : lo.toUInt64 < hi.toUInt64) : hi < lo := by
  have hlo := toNat_toUInt64 lo
  have hhi := toNat_toUInt64 hi
  have hbounds : ∀ x : Int64, -2 ^ 63 ≤ x.toInt ∧ x.toInt < 2 ^ 63 := fun x =>
    ⟨Int64.le_toInt x, Int64.toInt_lt x⟩
  have blo := hbounds lo
  have bhi := hbounds hi
  have hzero : ∀ x : Int64, x < 0 ↔ x.toInt < 0 := fun x => Int64.lt_iff_toInt_lt
  have hpos : ∀ x : Int64, 0 ≤ x ↔ 0 ≤ x.toInt := fun x => Int64.le_iff_toInt_le
  rw [UInt64.lt_iff_toNat_lt] at hlt
  rw [Int64.lt_iff_toInt_lt]
  unfold Misplaced at h
  rw [hzero, hzero, hpos, hpos] at h
  split at hlo <;> split at hhi <;> omega

/-- **If as much is found as matches, all of it can be found**, unless there is a number to the filter and what is
stored in the field is not all longs: of the first values then one that does not match may stand for one that
does. -/
theorem enough_and_placed (hindex : IndexedBy S tid) (hlow : f.lowerBound = longBytes lo)
    (hhigh : f.upperBound = longBytes hi)
    (hlong : S.size ≤ f.number ∨ ∀ s o w, S.read (.fieldValue tid s o fid) = some w → ∃ v, w = longBytes v)
    (hcount : {a | Matches S tid fid lo hi a}.encard = ((candidates S tid fid f).take f.number).length) :
    {a | Matches S tid fid lo hi a}.encard ≤ f.number ∧
      (f.number = 0 ∨ ∀ s o w, S.read (.fieldValue tid s o fid) = some w → ¬Astray f lo hi w s o) := by
  refine ⟨?_, or_iff_not_imp_left.mpr fun hpos => ?_⟩
  · rw [hcount, Nat.cast_le, List.length_take]
    exact Nat.min_le_left _ _
  have hnone : candidates S tid fid f = [] ↔ ∀ a, ¬Matches S tid fid lo hi a := by
    have hempty : {a | Matches S tid fid lo hi a} = ∅ ↔ (candidates S tid fid f).take f.number = [] := by
      rw [← Set.encard_eq_zero, hcount, Nat.cast_eq_zero, List.length_eq_zero_iff]
    rw [List.take_eq_nil_iff, or_iff_right hpos, Set.eq_empty_iff_forall_notMem] at hempty
    exact hempty.symm
  -- What matches comes between the keys: if it did not, they would not be in order, and nothing were found.
  have hbetween : ∀ s o v, S.read (.fieldValue tid s o fid) = some (longBytes v) → lo ≤ v → v < hi →
      Between f (longBytes v) s o := by
    intro s o v hread hlo hhi
    by_contra hnot
    have hmisplaced : Misplaced lo hi v := by
      by_contra hplaced
      rw [between_long hlow hhigh] at hnot
      exact hnot (((unsigned_between_iff lo hi v).mpr hplaced).mpr ⟨hlo, hhi⟩)
    refine hnone.mp (List.eq_nil_iff_forall_not_mem.mpr fun a ha => ?_) _ ⟨s, o, v, rfl, hread, hlo, hhi⟩
    obtain ⟨s', o', w, -, -, hw⟩ := (mem_candidates hindex).mp ha
    have hlt := hmisplaced.lt (hw.lt hlow hhigh)
    exact absurd (Int64.lt_of_le_of_lt hlo hhi) (Int64.not_lt.mpr (Int64.le_of_lt hlt))
  intro s o w hread
  rw [not_astray_iff hlow hhigh]
  refine ⟨fun hw => ?_, ?_⟩
  · have hmem : addr s o ∈ candidates S tid fid f := (mem_candidates hindex).mpr ⟨s, o, w, rfl, hread, hw⟩
    by_contra hrange
    by_cases hlongs : ∃ v, w = longBytes v
    · -- A long that is found and does not match: then nothing matches, and nothing is found.
      obtain ⟨v, rfl⟩ := hlongs
      have hmisplaced : Misplaced lo hi v := by
        by_contra hplaced
        exact hrange ((not_astray_iff hlow hhigh).mp (fun h => h.elim (fun ⟨v', heq, h⟩ =>
          hplaced (longBytes_inj.mp heq ▸ h)) fun h => h.1 ⟨v, rfl⟩) |>.mp hw)
      have hlt := hmisplaced.lt (hw.lt hlow hhigh)
      have hnil := hnone.mpr fun a ⟨_, _, v', _, _, hlo, hhi⟩ =>
        absurd (Int64.lt_of_le_of_lt hlo hhi) (Int64.not_lt.mpr (Int64.le_of_lt hlt))
      rw [hnil] at hmem
      cases hmem
    · -- Anything else: all is found, and all that matches is, and they are equally many.
      have hsize := hlong.resolve_right fun hall => hlongs (hall s o w hread)
      rw [List.take_of_length_le (Nat.le_trans (length_candidates_le S tid fid f) hsize),
        ← List.toFinset_card_of_nodup (nodup_candidates hindex), ← Set.encard_coe_eq_coe_finsetCard] at hcount
      have hsubset : {a | Matches S tid fid lo hi a} ⊆ (candidates S tid fid f).toFinset := by
        rintro a ⟨s', o', v, rfl, hread', hlo, hhi⟩
        rw [List.coe_toFinset, Set.mem_ofPred_eq]
        exact (mem_candidates hindex).mpr ⟨s', o', _, rfl, hread', hbetween s' o' v hread' hlo hhi⟩
      have hsame := (candidates S tid fid f).toFinset.finite_toSet.eq_of_subset_of_encard_le' hsubset hcount.ge
      rw [← List.mem_toFinset, ← Finset.mem_coe, ← hsame] at hmem
      obtain ⟨s', o', w', haddr, hread', v, rfl, -⟩ := matches_iff.mp hmem
      obtain ⟨rfl, rfl⟩ := addr_inj.mp haddr
      exact hlongs ⟨v, Option.some_inj.mp (hread.symm.trans hread')⟩
  · rintro ⟨v, rfl, hlo, hhi⟩
    exact hbetween s o v hread hlo hhi

end Found

/-! ## The documents -/

section Documents

variable {impl : RocksDBImpl} {name : Bytes} {tid : UInt64} {schema : DocSchema} {fid : UInt8} {lo hi : Int64}
  {f : FieldFilter}

/-- **What `GetDocs` does with one filter**: it loads a document for each address it has found, in their order. -/
theorem exists_found (hindex : IndexedBy impl.db tid) (hid : impl.cache.getTidByTname name = some tid)
    (hschema : impl.cache.getSchemaByTid tid = some schema) (hfid : schema.getFieldId f.name = some fid) :
    ∃ found : List Bytes, found.Pairwise (fun a b => compare a b = .lt) ∧
      found.Perm ((candidates impl.db tid fid f).take f.number) ∧
      impl.getDocs name [f] = (found.mapM fun a => loadDoc impl.db tid schema (a ++ [fid])).map .ok := by
  have hmem : ∀ l, l ∈ ((∅ : ExtTreeSet Bytes).insertMany (filterLocations impl.db tid fid f)).toList ↔
      ∃ a ∈ (candidates impl.db tid fid f).take f.number, a ++ [fid] = l := by
    intro l
    rw [ExtTreeSet.mem_toList, ExtTreeSet.mem_insertMany_list, filterLocations_eq, ← List.mem_map]
    simp
  have hlength : ∀ a ∈ (candidates impl.db tid fid f).take f.number, a.length = 16 := by
    intro a ha
    obtain ⟨s, o, v, rfl, -⟩ := (mem_candidates hindex).mp (List.mem_of_mem_take ha)
    exact length_addr s o
  have hordered : ((∅ : ExtTreeSet Bytes).insertMany (filterLocations impl.db tid fid f)).toList.Pairwise
      fun a b => compare a b = .lt := ExtTreeSet.ordered_toList
  have hget : impl.getDocs name [f] = (((∅ : ExtTreeSet Bytes).insertMany
      (filterLocations impl.db tid fid f)).toList.mapM (loadDoc impl.db tid schema)).map .ok := by
    simp only [getDocs, hid, hschema, collectLocations, hfid]
  rw [hget]
  generalize ((∅ : ExtTreeSet Bytes).insertMany (filterLocations impl.db tid fid f)).toList = locations
    at hmem hordered
  -- Behind each address there is the field id, the same for all.
  obtain ⟨found, rfl⟩ : ∃ found : List Bytes, found.map (· ++ [fid]) = locations := by
    have hrange : locations ∈ Set.range (List.map fun a : Bytes => a ++ [fid]) := by
      rw [Set.range_list_map]
      intro l hl
      obtain ⟨a, -, ha⟩ := (hmem l).mp hl
      exact ⟨a, ha⟩
    exact hrange
  have hmem : ∀ a, a ∈ found ↔ a ∈ (candidates impl.db tid fid f).take f.number := by
    intro a
    have hlocation := hmem (a ++ [fid])
    rw [List.mem_map] at hlocation
    simp only [List.append_left_inj, exists_eq_right] at hlocation
    exact hlocation
  have hfound : found.Pairwise fun a b => compare a b = .lt := by
    refine (List.pairwise_map.mp hordered).imp_of_mem fun {a b} ha hb hlt => ?_
    rw [compare_append_append (by rw [hlength a ((hmem a).mp ha), hlength b ((hmem b).mp hb)]),
      Std.compare_self, Ordering.then_eq] at hlt
    exact hlt
  have hnodup : found.Nodup := hfound.imp fun {a b} hlt heq => by
    rw [heq, Std.compare_self] at hlt
    cases hlt
  refine ⟨found, hfound, ?_, by rw [List.mapM_map]; rfl⟩
  exact (List.perm_ext_iff_of_nodup hnodup ((nodup_candidates hindex).sublist (List.take_sublist _ _))).mpr hmem

/-- **`GetDocs` returns the documents that match if and only if** it can find them, and what it has filtered by
are their uids. That is so for every filter that has no number, and for every one on a field in which
nothing but longs is stored. -/
theorem getDocs_matches_iff {ops : List Op} (hrun : runSteps step opened ops = some impl)
    (hindex : IndexConsistent impl.db) (hid : impl.cache.getTidByTname name = some tid)
    (hschema : impl.cache.getSchemaByTid tid = some schema) (hfid : schema.getFieldId f.name = some fid)
    (hlow : f.lowerBound = longBytes lo) (hhigh : f.upperBound = longBytes hi) :
    (Findable impl.db tid fid lo hi f → ReturnsMatches impl name tid fid lo hi f) ∧
      ((impl.db.size ≤ f.number ∨
        ∀ s o w, impl.db.read (.fieldValue tid s o fid) = some w → ∃ v, w = longBytes v) →
      ReturnsMatches impl name tid fid lo hi f → Findable impl.db tid fid lo hi f) := by
  have hindexed := (Registry.run hrun).indexedBy hindex tid
  obtain ⟨found, hordered, hperm, hget⟩ := exists_found hindexed hid hschema hfid
  constructor
  · intro h
    have hmem : ∀ a, a ∈ found ↔ Matches impl.db tid fid lo hi a := fun a =>
      hperm.mem_iff.trans (mem_found_iff hindexed hlow hhigh h.enough h.placed a)
    have hdocs : ∀ a ∈ found, ∃ doc, loadDoc impl.db tid schema (a ++ [fid]) = some doc ∧
        ∃ uid, doc.getPK = some uid ∧ impl.db.read (.uidIdMapping tid (longBytes uid)) = some a := by
      intro a ha
      obtain ⟨s, o, v, rfl, hread, hlo, hhi⟩ := (hmem a).mp ha
      exact ⟨_, loadDoc_long hread, v, rfl, h.uid s o v hread hlo hhi⟩
    obtain ⟨docs, hload, hright⟩ := exists_mapM hdocs
    exact ⟨docs, found, by rw [hget, hload]; rfl, hordered, hmem, (hright.imp fun a doc h => h.2).flip⟩
  · rintro hlong ⟨docs, addresses, hdocs, hascending, hall, hright⟩
    rw [hget] at hdocs
    obtain ⟨docs', hload, heq⟩ := Option.map_eq_some_iff.mp hdocs
    cases heq
    have hload := forall₂_of_mapM hload
    have hnodup : addresses.Nodup := hascending.imp fun {a b} hlt heq => by
      rw [heq, Std.compare_self] at hlt
      cases hlt
    -- There are as many documents as addresses are found, and as many as match.
    have hcount : {a | Matches impl.db tid fid lo hi a}.encard =
        ((candidates impl.db tid fid f).take f.number).length := by
      rw [encard_matches hnodup hall, ← hperm.length_eq, hload.length_eq, hright.length_eq]
    obtain ⟨henough, hplaced⟩ := enough_and_placed hindexed hlow hhigh hlong hcount
    have hsame : found = addresses := by
      refine eq_of_ascending (hordered.imp fun {a b} hlt => Ordering.isLE_of_eq_lt hlt) hascending ?_ ?_
      · intro a ha
        exact hperm.mem_iff.mpr ((mem_found_iff hindexed hlow hhigh henough hplaced a).mpr ((hall a).mp ha))
      · rw [hload.length_eq, hright.length_eq]
    refine ⟨henough, hplaced, fun s o v hread hlo hhi => ?_⟩
    have hin : addr s o ∈ found := hsame ▸ (hall _).mpr ⟨s, o, v, rfl, hread, hlo, hhi⟩
    rw [← hsame] at hright
    obtain ⟨doc, -, hdoc, uid, hpk, huid⟩ :=
      exists_of_mem_left (hload.mp (fun _ _ => And.intro) hright.flip) hin
    rw [loadDoc_long hread] at hdoc
    cases hdoc
    cases hpk
    exact huid

/-! ## Which values are uids -/

/-- Documents are stored by the value of field 0. -/
theorem collections_keyed {ops : List Op} : ∀ {name : Bytes} {docs : ExtTreeMap Bytes Fields}
    {uid : Bytes} {m : Fields}, (collections ops)[name]? = some docs → docs[uid]? = some m →
    m[(0 : UInt8)]? = some uid := by
  induction ops using List.reverseRecOn with
  | nil =>
    intro name docs uid m hdocs
    cases hdocs
  | append_singleton ops op ih =>
    intro name docs uid m hdocs hm
    rw [collections_concat] at hdocs
    unfold Collections.step at hdocs
    split at hdocs
    · split at hdocs
      · exact ih hdocs hm
      · rw [getElem?_insert_eq] at hdocs
        split at hdocs
        · cases hdocs
          rw [ExtTreeMap.getElem?_empty] at hm
          cases hm
        · exact ih hdocs hm
    · split at hdocs
      · next docs' uid' m' hdocs' hdoc =>
        rw [getElem?_insert_eq] at hdocs
        split at hdocs
        · cases hdocs
          rw [getElem?_insert_eq] at hm
          split at hm
          · next heq =>
            cases hm
            obtain ⟨m₀, -, hfirst⟩ := Option.bind_eq_some_iff.mp hdoc
            obtain ⟨uid₀, huid₀, hpair⟩ := Option.map_eq_some_iff.mp hfirst
            cases hpair
            rw [heq, huid₀]
          · exact ih hdocs' hm
        · exact ih hdocs hm
      · exact ih hdocs hm
    · exact ih hdocs hm

/-- **A value is the uid of its document** if and only if it is the value of field 0. -/
theorem Refines.uid_iff {ops : List Op} (h : Refines ops impl) {sid offset : UInt64}
    (ht : Table impl name tid schema sid offset) {s o : UInt64} {uid : Bytes}
    (hv : impl.db.read (.fieldValue tid s o fid) = some uid) :
    impl.db.read (.uidIdMapping tid uid) = some (addr s o) ↔
      impl.db.read (.fieldValue tid s o 0) = some uid := by
  obtain ⟨docs, hdocs⟩ := mem_iff_exists.mp ((h.names name).mpr (mem_iff_exists.mpr ⟨tid, ht.id⟩))
  have hstored := h.stored name tid schema sid offset docs ht hdocs
  obtain ⟨uid', hplace⟩ := hstored.live s o fid _ hv
  obtain ⟨m, hm⟩ := hstored.exists_doc hplace
  rw [hstored.values uid' m s o hm hplace, collections_keyed hdocs hm, Option.some_inj]
  constructor
  · intro hread
    exact (h.layout.table ht).inj _ _ _ hplace hread
  · rintro rfl
    exact hplace

/-- **On `_id` everything that matches can be found**, if the order of the index and the number of the filter
permit: what is stored there are the uids. -/
theorem Refines.findable {ops : List Op} (h : Refines ops impl) {sid offset : UInt64}
    (ht : Table impl name tid schema sid offset) (hindex : IndexedBy impl.db tid)
    (hnumber : impl.db.size ≤ f.number)
    (hplaced : ∀ s o w, impl.db.read (.fieldValue tid s o 0) = some w → ¬Astray f lo hi w s o)
    (hlow : f.lowerBound = longBytes lo) (hhigh : f.upperBound = longBytes hi) :
    Findable impl.db tid 0 lo hi f := by
  refine ⟨?_, .inr hplaced, fun s o v hread _ _ => (h.uid_iff ht hread).mpr hread⟩
  rw [encard_matches (nodup_candidates hindex) (mem_candidates_iff hindex hlow hhigh hplaced), Nat.cast_le]
  exact Nat.le_trans (length_candidates_le impl.db tid 0 f) hnumber

end Documents

/-! ## Some filters -/

/-- The filter `lo ≤ field < hi`. -/
def inRange (field : Bytes) (lo hi : Int64) : FieldFilter :=
  { upperBound := longBytes hi, lowerBound := longBytes lo, name := field }

/-- Three documents: `_id` is 1, 12 and 3, and `a` is 5, 6 and 7. -/
def threeRun : List Op :=
  firstRun ++ [.addDoc pairs (pairDoc 12 6) true, .addDoc pairs (pairDoc 3 7) true]

theorem threeRun_table : ∃ impl sid offset, runSteps step opened threeRun = some impl ∧
    Refines threeRun impl ∧ Table impl pairs 0 pairSchema sid offset ∧ IndexConsistent impl.db := by
  obtain ⟨impl, tid, sid, offset, hrun, href, ht⟩ :=
    @exists_pairs_table [.addDoc pairs (pairDoc 1 5) true, .addDoc pairs (pairDoc 12 6) true,
      .addDoc pairs (pairDoc 3 7) true] (by decide +kernel) (by decide) (by decide)
  have hid : ((runSteps step opened threeRun).map fun impl => impl.cache.tnamemap[pairs]?) =
      some (some 0) := by
    decide +kernel
  have hrun' : runSteps step opened threeRun = some impl := hrun
  rw [hrun', Option.map_some, ht.id] at hid
  cases hid
  exact ⟨impl, sid, offset, hrun', href, ht,
    indexConsistent_run (by simp [threeRun, firstRun, Op.single]) (by decide +kernel) hrun'⟩

/-- Their uids are longs. -/
theorem threeRun_values {impl : RocksDBImpl} (hrun : runSteps step opened threeRun = some impl)
    {s o : UInt64} {w : Bytes} (h : impl.db.read (.fieldValue 0 s o 0) = some w) :
    ∃ v, w = longBytes v := by
  obtain ⟨impl', sid, offset, hrun', href, ht, -⟩ := threeRun_table
  cases hrun.symm.trans hrun'
  obtain ⟨docs, hdocs⟩ := mem_iff_exists.mp ((href.names pairs).mpr (mem_iff_exists.mpr ⟨0, ht.id⟩))
  have hstored := href.stored pairs 0 pairSchema sid offset docs ht hdocs
  obtain ⟨uid, huid⟩ := hstored.live s o 0 w h
  obtain ⟨m, hm⟩ := hstored.exists_doc huid
  have hkeys : ((collections threeRun)[pairs]?.map fun docs => docs.keys) =
      some ([(1 : Int64), 3, 12].map longBytes) := by
    decide +kernel
  rw [hdocs, Option.map_some, Option.some_inj] at hkeys
  have hmem := ExtTreeMap.mem_keys.mpr (mem_iff_exists.mpr ⟨m, hm⟩)
  have hw : w = uid := by
    have hread := hstored.values uid m s o hm huid 0
    rw [collections_keyed hdocs hm, h] at hread
    exact Option.some_inj.mp hread
  rw [hkeys, ← hw] at hmem
  obtain ⟨v, -, hv⟩ := List.mem_map.mp hmem
  exact ⟨v, hv.symm⟩

/-- The documents of the uids 1 and 3, asked for by their uids. -/
theorem threeRun_getDocs : ∃ impl, runSteps step opened threeRun = some impl ∧
    ReturnsMatches impl pairs 0 0 0 10 (inRange primaryKeyName 0 10) := by
  obtain ⟨impl, sid, offset, hrun, href, ht, hindex⟩ := threeRun_table
  have hsize : ((runSteps step opened threeRun).map fun impl => decide (impl.db.size ≤ 100)) = some true := by
    decide +kernel
  rw [hrun, Option.map_some, Option.some_inj, decide_eq_true_eq] at hsize
  refine ⟨impl, hrun, (getDocs_matches_iff hrun hindex ht.id (getSchemaByTid_eq href.layout.catalog ht)
    (show pairSchema.getFieldId (inRange primaryKeyName 0 10).name = some 0 by decide +kernel) rfl rfl).1 ?_⟩
  refine href.findable ht ((Registry.run hrun).indexedBy hindex 0) (Nat.le_trans hsize (by decide)) ?_ rfl rfl
  rintro s o w hw (⟨v, -, ⟨h, -⟩ | ⟨h, -⟩⟩ | ⟨hnot, -⟩)
  · exact absurd h (by decide)
  · exact absurd h (by decide)
  · exact hnot (threeRun_values hrun hw)

/-- The documents asked for by the other field: what is returned are documents of the uids 5, 6 and 7. Asked for by
uids from -10 on: nothing is returned. One asked for of those with uids below 10: one is returned. -/
theorem threeRun_not_getDocs : ∃ impl, runSteps step opened threeRun = some impl ∧
    IndexConsistent impl.db ∧ impl.cache.getTidByTname pairs = some 0 ∧
    impl.cache.getSchemaByTid 0 = some pairSchema ∧ pairSchema.getFieldId [97] = some 1 ∧
    pairSchema.getFieldId primaryKeyName = some 0 ∧
    ¬ReturnsMatches impl pairs 0 1 0 10 (inRange [97] 0 10) ∧
    ¬ReturnsMatches impl pairs 0 0 (-10) 10 (inRange primaryKeyName (-10) 10) ∧
    ¬ReturnsMatches impl pairs 0 0 0 10 { inRange primaryKeyName 0 10 with number := 1 } := by
  obtain ⟨impl, sid, offset, hrun, href, ht, hindex⟩ := threeRun_table
  have hreads : ((runSteps step opened threeRun).map fun impl =>
      [inRange [97] 0 10, inRange primaryKeyName (-10) 10, { inRange primaryKeyName 0 10 with number := 1 }].map
        fun f => (impl.getDocs pairs [f]).map fun r => r.toOption.map fun docs => docs.map Doc.getPK) =
      some [some (some [some 5, some 6, some 7]), some (some []), some (some [some 1])] := by
    decide +kernel
  have hvalues : ((runSteps step opened threeRun).map fun impl =>
      (impl.db.read (.uidIdMapping 0 (longBytes 5)), impl.db.read (.fieldValue 0 0 0 0),
        impl.db.read (.fieldValue 0 0 2 0))) = some (none, some (longBytes 1), some (longBytes 3)) := by
    decide +kernel
  rw [hrun, Option.map_some, Option.some_inj] at hreads hvalues
  simp only [List.map_cons, List.map_nil, List.cons.injEq, and_true] at hreads
  obtain ⟨hother, hnegative, hnumber⟩ := hreads
  rw [Prod.mk.injEq, Prod.mk.injEq] at hvalues
  obtain ⟨hfive, hone, hthree⟩ := hvalues
  -- What is returned has these primary keys.
  have hpks : ∀ {f : FieldFilter} {docs : List Doc} {pks : List (Option Int64)},
      ((impl.getDocs pairs [f]).map fun r => r.toOption.map fun docs => docs.map Doc.getPK) = some (some pks) →
        impl.getDocs pairs [f] = some (.ok docs) → docs.map Doc.getPK = pks := by
    intro f docs pks hread hget
    rw [hget] at hread
    exact Option.some_inj.mp (Option.some_inj.mp hread)
  refine ⟨impl, hrun, hindex, ht.id, getSchemaByTid_eq href.layout.catalog ht, by decide +kernel,
    by decide +kernel, ?_, ?_, ?_⟩
  · rintro ⟨docs, addresses, hget, -, -, hright⟩
    have hmem : some 5 ∈ docs.map Doc.getPK := hpks hother hget ▸ List.mem_cons_self
    obtain ⟨doc, hdoc, hpk⟩ := List.mem_map.mp hmem
    obtain ⟨a, -, uid, huid, hread⟩ := exists_of_mem_left hright hdoc
    cases hpk.symm.trans huid
    rw [hfive] at hread
    cases hread
  · rintro ⟨docs, addresses, hget, -, hall, hright⟩
    have hnil : addresses = [] := by
      rw [← List.length_eq_zero_iff, ← hright.length_eq, ← List.length_map (f := Doc.getPK), hpks hnegative hget]
      rfl
    have hmem := (hall (addr 0 0)).mpr ⟨0, 0, 1, rfl, hone, by decide, by decide⟩
    rw [hnil] at hmem
    cases hmem
  · rintro ⟨docs, addresses, hget, -, hall, hright⟩
    obtain ⟨a, rfl⟩ : ∃ a, addresses = [a] := by
      rw [← List.length_eq_one_iff, ← hright.length_eq, ← List.length_map (f := Doc.getPK), hpks hnumber hget]
      rfl
    have hfirst := List.mem_singleton.mp ((hall (addr 0 0)).mpr ⟨0, 0, 1, rfl, hone, by decide, by decide⟩)
    have hlast := List.mem_singleton.mp ((hall (addr 0 2)).mpr ⟨0, 2, 3, rfl, hthree, by decide, by decide⟩)
    exact absurd (hfirst.trans hlast.symm) (by decide)

end CxxLab.RocksdbLab
