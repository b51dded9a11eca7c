import CxxLab.NewMetaLab.Calls
import Mathlib.Data.List.Pairwise

/-!
# `SnapshotsHolder` — the versions that are active, and looking them up

`active_`, `min_id_` and `max_id_` are updated apart from one another. That they fit together rests
on `Add` taking only ids above all it has taken before: then the new id is the largest key, the least
key is the oldest id, and what is evicted goes in the order in which it came. `run_versions` says so
of all runs of `Add`.

`GetSnapshot` shares a branch between "the latest" and "the largest id", which reads `active_[id]`
either way. For the largest id that finds it; for 0, which stands for the latest, it finds nothing
and puts in a null entry.
-/

set_option autoImplicit false

namespace CxxLab.NewMetaLab

open Std CxxLab.Lib

namespace World

/-! ## Runs with the ids that were added -/

/-- A call, and the ids for which `Add` returned true. -/
def logged (stale : Int → String) (s : World × List Int) : Call → Option (World × List Int)
  | .add id => (s.1.add id).map fun r => (r.2, if r.1 then s.2 ++ [id] else s.2)
  | c => (s.1.call stale c).map fun w => (w, s.2)

/-- The log is only written. -/
theorem call_of_logged (stale : Int → String) (s : World × List Int) (c : Call) :
    (logged stale s c).map Prod.fst = s.1.call stale c := by
  cases c with
  | add id =>
    simp only [logged, call, Option.map_map]
    rfl
  | getSnapshot | copyHandle | overwriteHandle | destroyHandle | gcPass | notifyDone =>
    simp only [logged, Option.map_map]
    exact Option.map_id'

/-- The entry is a snapshot of the id. -/
def IsSnapshot (w : World) (o : Option Nat) (k : Int) : Prop :=
  ∃ s, o = some s ∧ s < w.nextSnapshot ∧ w.getID s = k

theorem IsSnapshot.keeps {w w' : World} {o : Option Nat} {k : Int} (ho : w.IsSnapshot o k)
    (h : w.Sound) (hkeeps : Keeps w w') : w'.IsSnapshot o k := by
  obtain ⟨s, rfl, hs, hid⟩ := ho
  exact ⟨s, rfl, Nat.lt_of_lt_of_le hs hkeeps.nextSnapshot, (hkeeps.getID h hs).trans hid⟩

/-! ## The window of `Add` -/

/-- **What is active after these ids were added**: the newest of them.

At most `n` ids are active, the last ones of the list. Each is the key of a snapshot with this id,
and the first and the last are `min_id_` and `max_id_`. -/
structure Newest (n : Nat) (w : World) (added : List Int) : Prop where
  ascending : added.Pairwise (· < ·)
  keys : w.active.keys = added.drop (added.length - n)
  snapshot : ∀ k, k ∈ w.active → ∃ s, w.active[k]? = some (some s) ∧ w.getID s = k
  minId : added ≠ [] → w.active.keys.head? = some w.minId
  maxId : added ≠ [] → w.active.keys.getLast? = some w.maxId
  /-- The others have been handed over, in their order. -/
  toRelease : w.toRelease.map (Option.map w.getID) = (added.take (added.length - n)).map some

/-- **What `Add` keeps** when nothing else is called. -/
structure Versions (random n : Nat) (w : World) (added : List Int) : Prop where
  sound : w.Sound
  numVersions : w.numVersions = n
  running : w.done = false
  store : w.store = Store.fill random
  ascending : added.Pairwise (· < ·)
  snapshot : ∀ (k : Int) o, w.active[k]? = some o → w.IsSnapshot o k
  split : ∃ out, added = out ++ w.active.keys ∧ (out = [] ∨ w.active.keys.length = n) ∧
    List.Forall₂ w.IsSnapshot w.toRelease out
  size : w.active.keys.length ≤ n
  idle : w.active.keys = [] → added = [] ∧ w.minId = idMax ∧ w.maxId = idMin
  minId : ∀ k, w.active.keys.head? = some k → w.minId = k
  maxId : ∀ k, w.active.keys.getLast? = some k → w.maxId = k

theorem Versions.newest {random n : Nat} {w : World} {added : List Int}
    (h : Versions random n w added) : Newest n w added := by
  obtain ⟨out, hadded, hout, hrel⟩ := h.split
  have hlen : added.length - n = out.length := by
    rw [hadded, List.length_append]
    have := h.size
    rcases hout with rfl | hfull
    · simp only [List.length_nil]
      omega
    · omega
  have hne : added ≠ [] → w.active.keys ≠ [] := fun hne hnil => hne (h.idle hnil).1
  refine ⟨h.ascending, ?_, fun k hk => ?_, fun hadd => ?_, fun hadd => ?_, ?_⟩
  · rw [hlen, hadded, List.drop_left]
  · obtain ⟨o, ho⟩ := mem_iff_exists.mp hk
    obtain ⟨s, rfl, -, hid⟩ := h.snapshot k o ho
    exact ⟨s, ho, hid⟩
  · obtain ⟨k, ks, hkeys⟩ := List.exists_cons_of_ne_nil (hne hadd)
    rw [hkeys, List.head?_cons, h.minId k (by rw [hkeys]; rfl)]
  · have hlast := List.getLast?_eq_some_getLast (hne hadd)
    rw [hlast, h.maxId _ hlast]
  · rw [hlen, hadded, List.take_left, ← List.forall₂_eq_eq_eq, List.forall₂_map_left_iff,
      List.forall₂_map_right_iff]
    refine hrel.imp fun o k hone => ?_
    obtain ⟨s, rfl, -, hid⟩ := hone
    rw [Option.map_some, hid]

/-- `Add` does not touch the store. -/
theorem store_add {w w' : World} (h : w.Sound) {id : Int} {b : Bool}
    (hadd : w.add id = some (b, w')) : w'.store = w.store := by
  rcases add_cases hadd with ⟨-, -, rfl⟩ | ⟨-, s, w₁, hmade, hrest⟩
  · rfl
  have hstore : w₁.store = w.store := by
    rcases newSnapshot_cases h id with ⟨k, -, hnew⟩ | ⟨c, -, -, -, hnew⟩ | ⟨-, hnone⟩
    · cases hmade.symm.trans hnew
      rfl
    · cases hmade.symm.trans hnew
      rfl
    · rw [hnone] at hmade
      cases hmade
  rcases hrest with ⟨-, -, rfl⟩ | ⟨-, -, -, rfl⟩ | ⟨-, -, -, hevict⟩
  · exact hstore
  · exact hstore
  · rcases evict_cases hevict with ⟨-, rfl⟩ | ⟨-, _, _, -, -, rfl⟩
    · exact hstore
    · exact hstore

/-- An `Add` that is refused. -/
theorem Versions.refused {random n : Nat} {w w' : World} {added : List Int}
    (h : Versions random n w added) (hsound : w'.Sound) (hkeeps : Keeps w w')
    (hwin : SameWindow w w') (hstore : w'.store = w.store) : Versions random n w' added := by
  obtain ⟨out, hadded, hout, hrel⟩ := h.split
  refine ⟨hsound, hwin.numVersions.trans h.numVersions, hwin.done.trans h.running,
    hstore.trans h.store, h.ascending, fun k o ho => ?_, ⟨out, ?_⟩, ?_, fun hnil => ?_, ?_, ?_⟩
  · rw [hwin.active] at ho
    exact (h.snapshot k o ho).keeps h.sound hkeeps
  · rw [hwin.active, hwin.toRelease]
    exact ⟨hadded, hout, hrel.imp fun _ _ ho => ho.keeps h.sound hkeeps⟩
  · rw [hwin.active]
    exact h.size
  · rw [hwin.active] at hnil
    rw [hwin.minId, hwin.maxId]
    exact h.idle hnil
  · rw [hwin.active, hwin.minId]
    exact h.minId
  · rw [hwin.active, hwin.maxId]
    exact h.maxId

/-- All that was added is no larger than the largest key. -/
theorem Versions.lt_iff {random n : Nat} {w : World} {added : List Int}
    (h : Versions random n w added) (hn : 1 ≤ n) {id : Int} :
    (∀ x ∈ added, x < id) ↔ ∀ k ∈ w.active, k < id := by
  obtain ⟨out, hadded, hout, -⟩ := h.split
  constructor
  · intro hlt k hk
    refine hlt k ?_
    rw [hadded]
    exact List.mem_append_right _ (ExtTreeMap.mem_keys.mpr hk)
  · intro hlt x hx
    rw [hadded] at hx
    rcases List.mem_append.mp hx with hx | hx
    · -- There is a key, and it was added later.
      have hfull := hout.resolve_left (List.ne_nil_of_mem hx)
      obtain ⟨k, hk⟩ := List.exists_mem_of_ne_nil w.active.keys (by
        intro hnil
        rw [hnil] at hfull
        simp only [List.length_nil] at hfull
        omega)
      have hasc := h.ascending
      rw [hadded, List.pairwise_append] at hasc
      exact Int.lt_trans (hasc.2.2 x hx k hk) (hlt k (ExtTreeMap.mem_keys.mp hk))
    · exact hlt x (ExtTreeMap.mem_keys.mp hx)

/-- The largest key is `max_id_`. -/
theorem Versions.le_maxId {random n : Nat} {w : World} {added : List Int}
    (h : Versions random n w added) {k : Int} (hk : k ∈ w.active) :
    w.maxId ∈ w.active ∧ k ≤ w.maxId := by
  have hmem : k ∈ w.active.keys := ExtTreeMap.mem_keys.mpr hk
  have hlast := List.getLast?_eq_some_getLast (List.ne_nil_of_mem hmem)
  obtain ⟨out, hadded, -⟩ := h.split
  have hascending : w.active.keys.Pairwise (· ≤ ·) := by
    have hall := h.ascending
    rw [hadded] at hall
    exact (List.pairwise_append.mp hall).2.1.imp Int.le_of_lt
  rw [h.maxId _ hlast]
  exact ⟨ExtTreeMap.mem_keys.mp (List.getLast_mem _), hascending.rel_getLast hmem⟩

/-- What `Add` tests says that the id is above `max_id_`, where that is active. -/
theorem maxId_lt {w : World} {id : Int} (hnew : ¬ (0 < w.active.size ∧ id < w.maxId))
    (hmem : id ∉ w.active) (hlargest : w.maxId ∈ w.active) : w.maxId < id := by
  have hsize : 0 < w.active.size := by
    rw [← ExtTreeMap.length_keys]
    exact List.length_pos_of_mem (ExtTreeMap.mem_keys.mpr hlargest)
  have hne : id ≠ w.maxId := by
    rintro rfl
    exact hmem hlargest
  have hge : ¬ id < w.maxId := fun hlt => hnew ⟨hsize, hlt⟩
  omega

theorem Versions.newer {random n : Nat} {w : World} {added : List Int}
    (h : Versions random n w added) {id : Int} (hnew : ¬ (0 < w.active.size ∧ id < w.maxId))
    (hmem : id ∉ w.active) : ∀ k ∈ w.active, k < id := by
  intro k hk
  obtain ⟨hmax, hle⟩ := h.le_maxId hk
  exact Int.lt_of_le_of_lt hle (maxId_lt hnew hmem hmax)

/-- The new id comes last, and `min_id_` is still the first. -/
theorem Versions.insert_keys {random n : Nat} {w : World} {added : List Int}
    (h : Versions random n w added) {id : Int} (hmax : id ≤ idMax) (hgt : ∀ k ∈ w.active, k < id)
    (o : Option Nat) :
    (w.active.insert id o).keys = w.active.keys ++ [id] ∧
      (w.active.insert id o).keys.head? = some (if w.minId > id then id else w.minId) := by
  have hkeys : (w.active.insert id o).keys = w.active.keys ++ [id] :=
    keys_insert_last _ fun k hk => Std.compare_eq_lt.mpr (hgt k hk)
  refine ⟨hkeys, ?_⟩
  rw [hkeys]
  cases hold : w.active.keys with
  | nil =>
    obtain ⟨-, hidle, -⟩ := h.idle hold
    rw [hidle]
    simp only [List.nil_append, List.head?_cons, Option.some.injEq]
    split <;> omega
  | cons k ks =>
    have hk : w.minId = k := h.minId k (by rw [hold]; rfl)
    have := hgt k (ExtTreeMap.mem_keys.mp (by rw [hold]; simp))
    rw [hk, if_neg (by omega)]
    rfl

theorem Versions.maxId_inserted {random n : Nat} {w w' : World} {added : List Int} {id : Int}
    {s : Nat} (h : Versions random n w added) (hpos : 1 ≤ id) (hgt : ∀ k ∈ w.active, k < id)
    (hins : Inserted w w' id s) : w'.maxId = id := by
  rw [hins.maxId]
  cases hlast : w.active.keys.getLast? with
  | none =>
    obtain ⟨-, -, hidle⟩ := h.idle (List.getLast?_eq_none_iff.mp hlast)
    rw [hidle, if_pos (by unfold idMin; omega)]
  | some k =>
    rw [h.maxId k hlast, if_pos]
    exact hgt k (ExtTreeMap.mem_keys.mp (List.mem_of_getLast? hlast))

/-- **What is evicted** is the oldest, which is the first. -/
theorem Versions.evicted {random n : Nat} {w w' : World} {added : List Int} {id : Int} {s : Nat}
    {oldest : Option Nat} (h : Versions random n w added) (hmax : id ≤ idMax)
    (hgt : ∀ k ∈ w.active, k < id) (hne : w.active.keys ≠ [])
    (holdest : (w.active.insert id (some s))[if w.minId > id then id else w.minId]? = some oldest)
    (hactive : w'.active =
      (w.active.insert id (some s)).erase (if w.minId > id then id else w.minId)) :
    ∃ k ks, w.active.keys = k :: ks ∧ w'.active.keys = ks ++ [id] ∧ w.IsSnapshot oldest k := by
  obtain ⟨hkeys, hminId⟩ := h.insert_keys hmax hgt (some s)
  obtain ⟨k, ks, hold⟩ := List.exists_cons_of_ne_nil hne
  have hleast : (if w.minId > id then id else w.minId) = k := by
    rw [hkeys, hold, List.cons_append, List.head?_cons] at hminId
    exact (Option.some_inj.mp hminId).symm
  have hlt := hgt k (ExtTreeMap.mem_keys.mp (by rw [hold]; simp))
  rw [hleast] at hactive holdest
  rw [getElem?_insert_eq, if_neg (by omega)] at holdest
  refine ⟨k, ks, hold, ?_, h.snapshot k oldest holdest⟩
  rw [hactive]
  exact keys_erase_head (by rw [hkeys, hold]; rfl)

/-- What is under the keys after it is a snapshot of its id. -/
theorem Versions.snapshot_inserted {random n : Nat} {w w' : World} {added : List Int} {id : Int}
    (h : Versions random n w added) (hkeeps : Keeps w w') (hs : w.nextSnapshot < w'.nextSnapshot)
    (hid : w'.getID w.nextSnapshot = id) (hins : Inserted w w' id w.nextSnapshot) (k : Int)
    (o : Option Nat) (ho : w'.active[k]? = some o) : w'.IsSnapshot o k := by
  rcases hins.active_cases ho with ⟨rfl, rfl⟩ | hold
  · exact ⟨w.nextSnapshot, rfl, hs, hid⟩
  · exact (h.snapshot k o hold).keeps h.sound hkeeps

theorem Versions.ascending_inserted {random n : Nat} {w : World} {added : List Int} {id : Int}
    (h : Versions random n w added) (hn : 1 ≤ n) (hgt : ∀ k ∈ w.active, k < id) :
    (added ++ [id]).Pairwise (· < ·) := by
  refine List.pairwise_append.mpr ⟨h.ascending, List.pairwise_singleton _ _, fun x hx y hy => ?_⟩
  rw [List.mem_singleton.mp hy]
  exact (h.lt_iff hn).mpr hgt x hx

/-- There is a version, and the window is about the keys there are. -/
theorem Versions.of_window {random n : Nat} {w : World} {added : List Int} (hsound : w.Sound)
    (hversions : w.numVersions = n) (hrunning : w.done = false) (hstore : w.store = Store.fill random)
    (hascending : added.Pairwise (· < ·))
    (hsnapshot : ∀ (k : Int) o, w.active[k]? = some o → w.IsSnapshot o k)
    (hsplit : ∃ out, added = out ++ w.active.keys ∧ (out = [] ∨ w.active.keys.length = n) ∧
      List.Forall₂ w.IsSnapshot w.toRelease out)
    (hsize : w.active.keys.length ≤ n) (hmin : w.active.keys.head? = some w.minId)
    (hmax : w.active.keys.getLast? = some w.maxId) : Versions random n w added := by
  refine ⟨hsound, hversions, hrunning, hstore, hascending, hsnapshot, hsplit, hsize,
    fun hnil => ?_, fun k hk => ?_, fun k hk => ?_⟩
  · rw [hnil] at hmin
    cases hmin
  · exact Option.some_inj.mp (hmin.symm.trans hk)
  · exact Option.some_inj.mp (hmax.symm.trans hk)

/-- **An `Add` that returns true**: the new id is the largest key, and with too many the oldest goes,
which is the least. -/
theorem Versions.inserted {random n : Nat} {w w' : World} {added : List Int} {id : Int}
    (h : Versions random n w added) (hn : 1 ≤ n) (hsound : w'.Sound) (hkeeps : Keeps w w')
    (hstore : w'.store = w.store) (hpos : 1 ≤ id) (hmax : id ≤ idMax)
    (hgt : ∀ k ∈ w.active, k < id) (hs : w.nextSnapshot < w'.nextSnapshot)
    (hid : w'.getID w.nextSnapshot = id) (hins : Inserted w w' id w.nextSnapshot) :
    Versions random n w' (added ++ [id]) := by
  obtain ⟨hkeys, hminId⟩ := h.insert_keys hmax hgt (some w.nextSnapshot)
  rw [hkeys] at hminId
  have hsize : (w.active.insert id (some w.nextSnapshot)).size = w.active.keys.length + 1 := by
    rw [← ExtTreeMap.length_keys, hkeys, List.length_append, List.length_singleton]
  have hmaxId := h.maxId_inserted hpos hgt hins
  have hascending := h.ascending_inserted hn hgt
  have hsnapshot := h.snapshot_inserted hkeeps hs hid hins
  obtain ⟨out, hadded, hout, hrel⟩ := h.split
  have hrel' := hrel.imp fun _ _ ho => IsSnapshot.keeps ho h.sound hkeeps
  rcases hins.window with ⟨hfits, hactive, hmin, hsame⟩ |
    ⟨hmany, oldest, first, holdest, hactive, hfirst, hmin, hmore⟩
  · -- Nothing was evicted before either.
    rw [h.numVersions, hsize] at hfits
    have hnil : out = [] := hout.resolve_right (by omega)
    subst hnil
    have hkeys' : w'.active.keys = w.active.keys ++ [id] := by rw [hactive, hkeys]
    refine Versions.of_window hsound (hins.numVersions.trans h.numVersions)
      (hins.done.trans h.running) (hstore.trans h.store) hascending hsnapshot
      ⟨[], ?_, .inl rfl, ?_⟩ ?_ ?_ ?_
    · rw [hkeys', hadded]
      rfl
    · rw [hsame]
      exact hrel'
    · rw [hkeys', List.length_append, List.length_singleton]
      exact hfits
    · rw [hkeys', hminId, hmin]
    · rw [hkeys', List.getLast?_append, List.getLast?_singleton, Option.some_or, hmaxId]
  · rw [h.numVersions, hsize] at hmany
    have hfull := h.size
    obtain ⟨k, ks, hkeys₀, hkeys', hwas⟩ := h.evicted hmax hgt (by
      intro hnil
      rw [hnil] at hmany
      simp only [List.length_nil] at hmany
      omega) holdest hactive
    have holdest' := hwas.keeps h.sound hkeeps
    refine Versions.of_window hsound (hins.numVersions.trans h.numVersions)
      (hins.done.trans h.running) (hstore.trans h.store) hascending hsnapshot
      ⟨out ++ [k], ?_, .inr ?_, ?_⟩ ?_ ?_ ?_
    · rw [hadded, hkeys₀, hkeys']
      simp
    · rw [hkeys', List.length_append, List.length_singleton]
      rw [hkeys₀, List.length_cons] at hmany hfull
      omega
    · rw [hmore]
      exact List.rel_append hrel' (.cons holdest' .nil)
    · rw [hkeys', List.length_append, List.length_singleton]
      rw [hkeys₀, List.length_cons] at hfull
      exact hfull
    · rw [hfirst, hmin]
    · rw [hkeys', List.getLast?_append, List.getLast?_singleton, Option.some_or, hmaxId]

/-- There is something to evict, where something is. -/
theorem exists_evict {w : World} (hmin : w.active.keys.head? = some w.minId)
    (hmore : w.numVersions < w.active.size → 2 ≤ w.active.size) : ∃ w', w.evict = some w' := by
  unfold evict
  by_cases hfits : w.active.size ≤ w.numVersions
  · exact ⟨w, if_pos hfits⟩
  rw [if_neg hfits]
  obtain ⟨ks, hkeys⟩ : ∃ ks, w.active.keys = w.minId :: ks := by
    cases hkeys : w.active.keys with
    | nil =>
      rw [hkeys] at hmin
      cases hmin
    | cons k ks =>
      rw [hkeys] at hmin
      cases hmin
      exact ⟨ks, rfl⟩
  obtain ⟨oldest, holdest⟩ := mem_iff_exists.mp
    (ExtTreeMap.mem_keys.mp (show w.minId ∈ w.active.keys by rw [hkeys]; simp))
  have hlen := hmore (by omega)
  rw [← ExtTreeMap.length_keys, hkeys, List.length_cons] at hlen
  obtain ⟨first, rest, hrest⟩ := List.exists_cons_of_ne_nil (l := ks) (by
    rintro rfl
    simp at hlen)
  have hkeys' : (w.active.erase w.minId).keys = first :: rest := hrest ▸ keys_erase_head hkeys
  refine ⟨{ w with active := w.active.erase w.minId, minId := first,
                   toRelease := w.toRelease ++ [oldest] }, ?_⟩
  simp [holdest, hkeys']

/-- There is a result: the id has a row, and what is to be evicted is there. -/
theorem Versions.exists_add {random n : Nat} {w : World} {added : List Int}
    (h : Versions random n w added) (hn : 1 ≤ n) {id : Int} (hmax : id ≤ idMax)
    (hrow : id ∈ (Store.fill random).collectionCommit) : ∃ b w', w.add id = some (b, w') := by
  by_cases hold : 0 < w.active.size ∧ id < w.maxId
  · exact ⟨false, w, if_pos hold⟩
  obtain ⟨s, w₁, hmade⟩ := h.sound.exists_newSnapshot (h.store.symm ▸ hrow)
  obtain ⟨-, -, hwin, -⟩ := h.sound.newSnapshot hmade
  by_cases hmem : id ∈ w.active
  · obtain ⟨w₂, hadd, -⟩ := add_of_newSnapshot hold hmade hwin (.inr hmem)
    exact ⟨false, w₂, hadd⟩
  obtain ⟨hkeys, hminId⟩ := h.insert_keys hmax (h.newer hold hmem) (some s)
  obtain ⟨w₂, hevict⟩ := @exists_evict
    { w₁.updateSnapshot s fun o => o.registerOnNoRefCB.ref with
      minId := if w₁.minId > id then id else w₁.minId
      maxId := if w₁.maxId < id then id else w₁.maxId
      active := w₁.active.insert id (some s) }
    (by rw [hwin.active, hwin.minId]; exact hminId)
    (fun hmany => Nat.le_trans (Nat.succ_le_succ hn) (by
      rw [← h.numVersions, ← hwin.numVersions]
      exact hmany))
  refine ⟨true, w₂, ?_⟩
  have hmem' : id ∉ (w₁.updateSnapshot s fun o => o.registerOnNoRefCB.ref).active := by
    rw [← hwin.active] at hmem
    exact hmem
  have hdone : w₁.done = false := hwin.done.trans h.running
  unfold World.add
  rw [if_neg hold, hmade, Option.bind_eq_bind, Option.bind_some]
  dsimp only
  rw [hdone, if_neg Bool.false_ne_true, if_neg hmem']
  exact Option.bind_eq_some_iff.mpr ⟨w₂, hevict, rfl⟩

/-- **One `Add`** of an id the store has. -/
theorem Versions.add {random n : Nat} {w : World} {added : List Int}
    (h : Versions random n w added) (hn : 1 ≤ n) {id : Int} (hmax : id ≤ idMax)
    (hrow : id ∈ (Store.fill random).collectionCommit) :
    ∃ b w', w.add id = some (b, w') ∧ (b = true ↔ ∀ x ∈ added, x < id) ∧
      Versions random n w' (if b then added ++ [id] else added) := by
  obtain ⟨b, w', hadd⟩ := h.exists_add hn hmax hrow
  obtain ⟨hsound, hkeeps, ⟨rfl, hwin, hreason⟩ | ⟨rfl, hnew, -, hmem, hpos, hlt, hid, hins⟩⟩ :=
    h.sound.add hadd
  · refine ⟨false, w', hadd, ?_, h.refused hsound hkeeps hwin (store_add h.sound hadd)⟩
    rw [h.lt_iff hn]
    refine ⟨fun hfalse => absurd hfalse Bool.false_ne_true, fun hgt => ?_⟩
    rcases hreason with ⟨hsize, hold⟩ | hdone | hmem
    · rw [← ExtTreeMap.length_keys] at hsize
      obtain ⟨k, hk⟩ := List.exists_mem_of_length_pos hsize
      have := hgt _ (h.le_maxId (ExtTreeMap.mem_keys.mp hk)).1
      omega
    · rw [h.running] at hdone
      cases hdone
    · exact absurd (hgt id hmem) (Int.lt_irrefl id)
  · have hgt := h.newer hnew hmem
    exact ⟨true, w', hadd, ⟨fun _ => (h.lt_iff hn).mpr hgt, fun _ => rfl⟩,
      h.inserted hn hsound hkeeps (store_add h.sound hadd) hpos hmax hgt hlt hid hins⟩

theorem Versions.of_init (random n : Nat) : Versions random n (init random n) [] := by
  have hkeys : (init random n).active.keys = [] := ExtTreeMap.keys_eq_nil_iff.mpr rfl
  refine ⟨Sound.of_init random n, rfl, rfl, rfl, .nil, fun k o ho => ?_, ⟨[], ?_, .inl rfl, .nil⟩, ?_,
    fun _ => ⟨rfl, rfl, rfl⟩, fun k hk => ?_, fun k hk => ?_⟩
  · simp [init] at ho
  · rw [hkeys]
    rfl
  · rw [hkeys]
    exact Nat.zero_le n
  · rw [hkeys] at hk
    cases hk
  · rw [hkeys] at hk
    cases hk

/-- **The newest versions are active.** Every run of `Add`s of ids the store has goes through; what
was added is there, as far as it is not too much, and the next `Add` returns true if and only if its
id is above all of it.

`min_id_` and `max_id_` are the ends of what is active, and evicted versions are handed over in
ascending order. All this is `Versions`, an invariant of the state together with the list of ids
that were added. -/
theorem run_versions (stale : Int → String) (random : Nat) {numVersions : Nat}
    (hversions : 1 ≤ numVersions) {ids : List Int}
    (hids : ∀ id ∈ ids, id ≤ idMax ∧ id ∈ (Store.fill random).collectionCommit) :
    ∃ w added, runSteps (logged stale) (init random numVersions, []) (ids.map .add) =
        some (w, added) ∧
      Newest numVersions w added ∧
      ∀ id, id ≤ idMax → id ∈ (Store.fill random).collectionCommit →
        ∃ b w', w.add id = some (b, w') ∧ (b = true ↔ ∀ x ∈ added, x < id) := by
  have hvalid : Along (logged stale) (fun _ c => ∃ id, c = .add id ∧ id ≤ idMax ∧
      id ∈ (Store.fill random).collectionCommit) (init random numVersions, []) (ids.map .add) := by
    refine Along.of_forall _ fun c hc _ => ?_
    obtain ⟨id, hid, rfl⟩ := List.mem_map.mp hc
    exact ⟨id, rfl, hids id hid⟩
  obtain ⟨⟨w, added⟩, hrun, h⟩ := hvalid.run_inv
    (I := fun s => Versions random numVersions s.1 s.2) (fun s c h hc => by
      obtain ⟨id, rfl, hmax, hrow⟩ := hc
      obtain ⟨b, w', hadd, -, h'⟩ := h.add hversions hmax hrow
      exact ⟨_, by rw [logged, hadd]; rfl, h'⟩)
    (Versions.of_init random numVersions)
  refine ⟨w, added, hrun, h.newest, fun id hmax hrow => ?_⟩
  obtain ⟨b, w', hadd, hiff, -⟩ := h.add hversions hmax hrow
  exact ⟨b, w', hadd, hiff⟩

theorem run_versions_three : ∃ w added, runSteps (logged fun _ => "c_1") (init 5 2, [])
        ([2, 1, 4, 5].map .add) = some (w, added) ∧
      Newest 2 w added ∧
      ∀ id, id ≤ idMax → id ∈ (Store.fill 5).collectionCommit →
        ∃ b w', w.add id = some (b, w') ∧ (b = true ↔ ∀ x ∈ added, x < id) :=
  run_versions (fun _ => "c_1") 5 (by decide) (by decide +kernel)

/-! ## Lookups -/

/-- **What a call can do to the window**: nothing, a null entry of a lookup, or an id of `Add`. -/
theorem logged_cases {stale : Int → String} {w w' : World} {added added' : List Int} {c : Call}
    (h : w.Sound) (hb : w.Bounded) (hcall : logged stale (w, added) c = some (w', added')) :
    w'.Sound ∧ w'.Bounded ∧ Keeps w w' ∧
    (added' = added ∧ w'.active = w.active ∧ w'.minId = w.minId ∧ w'.maxId = w.maxId ∨
    (∃ id isScoped, c = .getSnapshot id isScoped ∧ (id = 0 ∨ id = w.maxId) ∧ id ∉ w.active ∧
      added' = added ∧ w'.active = w.active.insert id none ∧ w'.minId = w.minId ∧
      w'.maxId = w.maxId) ∨
    ∃ id, c = .add id ∧ added' = added ++ [id] ∧ ¬ (0 < w.active.size ∧ id < w.maxId) ∧
      id ∉ w.active ∧ 1 ≤ id ∧ w.nextSnapshot < w'.nextSnapshot ∧
      w'.getID w.nextSnapshot = id ∧ Inserted w w' id w.nextSnapshot) := by
  have hone : w.call stale c = some w' := by
    rw [← call_of_logged stale (w, added), hcall]
    rfl
  obtain ⟨hsound, hbounded, hkeeps⟩ := call_keeps h hb hone
  refine ⟨hsound, hbounded, hkeeps, ?_⟩
  cases c with
  | add id =>
    obtain ⟨⟨b, w₁⟩, hadd, heq⟩ := Option.map_eq_some_iff.mp hcall
    cases heq
    obtain ⟨-, -, ⟨rfl, hwin, -⟩ | ⟨rfl, hnew, -, hmem, hpos, hlt, hid, hins⟩⟩ := h.add hadd
    · exact .inl ⟨rfl, hwin.active, hwin.minId, hwin.maxId⟩
    · exact .inr (.inr ⟨id, rfl, rfl, hnew, hmem, hpos, hlt, hid, hins⟩)
  | getSnapshot id isScoped =>
    obtain ⟨w₂, hget, heq⟩ := Option.map_eq_some_iff.mp hcall
    cases heq
    obtain ⟨⟨r, w₁⟩, hget, hret⟩ := Option.bind_eq_some_iff.mp hget
    rcases getSnapshotWith_cases hget with ⟨rfl, rfl⟩ | ⟨rfl, hfast, hmem, rfl⟩ | ⟨s, rfl, hs, rfl⟩
    · cases hret
      exact .inl ⟨rfl, rfl, rfl, rfl⟩
    · cases hret
      exact .inr (.inl ⟨id, isScoped, rfl, hfast, hmem, rfl, rfl, rfl, rfl⟩)
    · cases isScoped with
      | false =>
        cases hret
        exact .inl ⟨rfl, rfl, rfl, rfl⟩
      | true =>
        cases hret
        exact .inl ⟨rfl, rfl, rfl, rfl⟩
  | notifyDone =>
    cases hcall
    exact .inl ⟨rfl, rfl, rfl, rfl⟩
  | copyHandle | overwriteHandle | destroyHandle | gcPass =>
    obtain ⟨w₁, -, heq⟩ := Option.map_eq_some_iff.mp hcall
    cases heq
    obtain ⟨_, _, _, -, -, hdrops⟩ :=
      call_other h hb hone (fun _ => Call.noConfusion) fun _ _ => Call.noConfusion
    exact .inl ⟨rfl, hdrops.window.active, hdrops.window.minId, hdrops.window.maxId⟩

/-- **A pure lookup**: it leaves `active_` alone; 0 is the latest, that is the largest id that is
active, and any other id is itself. -/
def LooksUp (w : World) (id : Int) (isScoped : Bool) : Prop :=
  ∃ r w', w.getSnapshotWith id isScoped = some (r, w') ∧ w'.active = w.active ∧
    (id = 0 → ∃ (largest : Int) (s : Nat), r = some s ∧ w.active[largest]? = some (some s) ∧
      ∀ (k : Int) (s' : Nat), w.active[k]? = some (some s') → k ≤ largest) ∧
    (id ≠ 0 → ∀ s : Nat, r = some s ↔ w.active[id]? = some (some s) ∧ w.getID s = id)

/-- The entry that is read without being looked for is there, and a handle is not made on null. -/
def Present (w : World) (id : Int) (isScoped : Bool) : Prop :=
  (id = w.maxId → id ∈ w.active) ∧
  (isScoped = true → id = w.maxId ∨ ¬ (id < w.minId ∨ id > w.maxId) → w.active[id]? ≠ some none)

/-- The snapshots that are active are between `min_id_` and `max_id_`. -/
structure Ranged (w : World) : Prop where
  sound : w.Sound
  bounded : w.Bounded
  range : ∀ (k : Int) s, w.active[k]? = some (some s) →
    w.getID s = k ∧ 1 ≤ k ∧ w.minId ≤ k ∧ k ≤ w.maxId

/-- A null entry comes before no id that was added. -/
structure Latest (w : World) (added : List Int) : Prop where
  ranged : w.Ranged
  null : ∀ k : Int, w.active[k]? = some none → k = 0
  idle : added = [] → w.active = ∅ ∧ w.minId = idMax ∧ w.maxId = idMin
  largest : added ≠ [] → 1 ≤ w.maxId ∧ w.maxId ∈ w.active ∧ w.minId ≤ w.maxId

/-- A lookup of the latest waits for the first version. -/
def Careful (s : World × List Int) : Call → Prop
  | .getSnapshot id _ => s.2 = [] → id ≠ 0 ∧ id ≠ s.1.maxId
  | _ => True

instance (s : World × List Int) : ∀ a, Decidable (Careful s a)
  | .getSnapshot id _ => inferInstanceAs (Decidable (s.2 = [] → id ≠ 0 ∧ id ≠ s.1.maxId))
  | .add _ | .copyHandle _ | .overwriteHandle _ | .destroyHandle _ | .gcPass | .notifyDone =>
    .isTrue trivial

/-- The first entry has the least key. -/
theorem le_of_head_keys {m : ExtTreeMap Int (Option Nat)} {first k : Int}
    (hfirst : m.keys.head? = some first) (hk : k ∈ m) : first ≤ k := by
  have hmem := ExtTreeMap.mem_keys.mpr hk
  obtain ⟨rest, hkeys⟩ := List.head?_eq_some_iff.mp hfirst
  have hordered : m.keys.Pairwise fun a b => compare a b = .lt := ExtTreeMap.ordered_keys
  rw [hkeys] at hmem hordered
  rcases List.mem_cons.mp hmem with rfl | hmem
  · exact Int.le_refl k
  · exact Int.le_of_lt (Std.compare_eq_lt.mp ((List.pairwise_cons.mp hordered).1 k hmem))

/-- `min_id_` behind an `Add` that returned true. -/
theorem Inserted.minId_le {w w' : World} {id : Int} {s : Nat} (h : Inserted w w' id s) {k : Int}
    (hk : k ∈ w'.active) (hold : k = id ∨ w.minId ≤ k) : w'.minId ≤ k := by
  rcases h.window with ⟨-, -, hmin, -⟩ | ⟨-, _, first, -, -, hfirst, hmin, -⟩
  · rw [hmin]
    split <;> omega
  · rw [hmin]
    exact le_of_head_keys hfirst hk

theorem Inserted.le_maxId {w w' : World} {id : Int} {s : Nat} (h : Inserted w w' id s) :
    id ≤ w'.maxId ∧ w.maxId ≤ w'.maxId := by
  rw [h.maxId]
  split <;> omega

theorem Ranged.step {stale : Int → String} {s s' : World × List Int} {c : Call} (h : s.1.Ranged)
    (hcall : logged stale s c = some s') : s'.1.Ranged := by
  obtain ⟨hsound, hbounded, hkeeps, hcases⟩ := logged_cases h.sound h.bounded hcall
  refine ⟨hsound, hbounded, fun k t ht => ?_⟩
  have hsame : s.1.active[k]? = some (some t) → s'.1.getID t = k ∧ 1 ≤ k ∧ s.1.minId ≤ k ∧
      k ≤ s.1.maxId := by
    intro hold
    rw [hkeeps.getID h.sound (h.bounded.active k t hold)]
    exact h.range k t hold
  rcases hcases with ⟨-, hactive, hmin, hmax⟩ | ⟨id, -, -, -, -, -, hactive, hmin, hmax⟩ |
    ⟨id, -, -, -, -, hpos, -, hid, hins⟩
  · rw [hactive] at ht
    rw [hmin, hmax]
    exact hsame ht
  · rw [hactive] at ht
    rw [hmin, hmax]
    rcases getElem?_of_insert ht with ⟨-, hnull⟩ | hold
    · cases hnull
    · exact hsame hold
  · have hmem : k ∈ s'.1.active := mem_iff_exists.mpr ⟨_, ht⟩
    have hle := hins.le_maxId
    rcases hins.active_cases ht with ⟨rfl, heq⟩ | hold
    · cases heq
      exact ⟨hid, hpos, hins.minId_le hmem (.inl rfl), hle.1⟩
    · obtain ⟨hid', hpos', hmin, hmax⟩ := hsame hold
      exact ⟨hid', hpos', hins.minId_le hmem (.inr hmin), Int.le_trans hmax hle.2⟩

theorem Ranged.of_init (random n : Nat) : (init random n).Ranged :=
  ⟨Sound.of_init random n, Bounded.of_init random n, fun k s hs => by simp [init] at hs⟩

/-- What a handle is made on is what is found. -/
theorem Ranged.handle {w : World} (h : w.Ranged) {id : Int} {o : Option Nat}
    (ho : w.active[id]? = some o) {isScoped : Bool}
    (hnull : isScoped = true → some o ≠ some none) :
    ∃ r w', w.handle isScoped o = some (r, w') ∧ w'.active = w.active ∧
      ∀ s : Nat, r = some s ↔ w.active[id]? = some (some s) ∧ w.getID s = id := by
  cases o with
  | none =>
    cases isScoped with
    | true => exact absurd rfl (hnull rfl)
    | false => exact ⟨none, w, rfl, rfl, fun s => by simp [ho]⟩
  | some s =>
    refine ⟨some s, _, rfl, ?_, fun s' => ?_⟩
    · split <;> rfl
    · rw [ho, Option.some_inj, Option.some_inj, Option.some_inj]
      refine ⟨?_, And.left⟩
      rintro rfl
      exact ⟨rfl, (h.range id s ho).1⟩

/-- **A lookup is pure if and only if** it is not for 0, and the entry it reads is there. -/
theorem Ranged.looksUp_iff_present {w : World} (h : w.Ranged) (id : Int) (isScoped : Bool) :
    LooksUp w id isScoped ↔ id ≠ 0 ∧ Present w id isScoped := by
  constructor
  · rintro ⟨r, w', hget, hactive, hzero, -⟩
    refine ⟨?_, ?_, ?_⟩
    · rintro rfl
      obtain ⟨_, s, rfl, -⟩ := hzero rfl
      rcases getSnapshotWith_cases hget with ⟨hnone, -⟩ | ⟨hnone, -⟩ | ⟨s', -, hs', -⟩
      · cases hnone
      · cases hnone
      · have hpos := (h.range 0 s' hs').2.1
        omega
    · intro hmax
      by_contra hmem
      rw [getSnapshotWith, if_pos (.inr hmax), not_mem_iff.mp hmem] at hget
      cases isScoped with
      | true => cases hget
      | false =>
        cases hget
        exact hmem (hactive ▸ ExtTreeMap.mem_insert_self)
    · rintro rfl hrange hnull
      unfold getSnapshotWith at hget
      rw [hnull] at hget
      split at hget
      · cases hget
      · rename_i hslow
        rw [if_neg (hrange.resolve_left fun hmax => hslow (.inr hmax))] at hget
        cases hget
  · rintro ⟨hne, hpresent, hnull⟩
    unfold LooksUp getSnapshotWith
    by_cases hmax : id = w.maxId
    · obtain ⟨o, ho⟩ := mem_iff_exists.mp (hpresent hmax)
      obtain ⟨r, w', hhandle, hactive, hr⟩ := h.handle ho fun hs => ho ▸ hnull hs (.inl hmax)
      rw [if_pos (.inr hmax), ho]
      rw [ho] at hr
      exact ⟨r, w', hhandle, hactive, fun hzero => absurd hzero hne, fun _ => hr⟩
    rw [if_neg (not_or.mpr ⟨hne, hmax⟩)]
    by_cases hout : id < w.minId ∨ id > w.maxId
    · rw [if_pos hout]
      refine ⟨none, w, rfl, rfl, fun hzero => absurd hzero hne, fun _ s => ⟨fun hs => ?_, ?_⟩⟩
      · cases hs
      rintro ⟨hs, -⟩
      obtain ⟨-, -, hlow, hhigh⟩ := h.range id s hs
      omega
    rw [if_neg hout]
    cases ho : w.active[id]? with
    | none => exact ⟨none, w, rfl, rfl, fun hzero => absurd hzero hne, fun _ s => by simp⟩
    | some o =>
      obtain ⟨r, w', hhandle, hactive, hr⟩ := h.handle ho fun hs => ho ▸ hnull hs (.inr hout)
      rw [ho] at hr
      exact ⟨r, w', hhandle, hactive, fun hzero => absurd hzero hne, fun _ => hr⟩

/-- **An id that is added** is the largest, and is not what is evicted. -/
theorem Latest.inserted {w w' : World} {added : List Int} {id : Int} {s : Nat} (h : Latest w added)
    (hnew : ¬ (0 < w.active.size ∧ id < w.maxId)) (hmem : id ∉ w.active) (hpos : 1 ≤ id)
    (hins : Inserted w w' id s) : id ∈ w'.active ∧ w'.maxId = id := by
  by_cases hfirst : added = []
  · obtain ⟨hempty, -, hidle⟩ := h.idle hfirst
    have hmax : w'.maxId = id := by
      rw [hins.maxId, hidle, if_pos (by unfold idMin; omega)]
    refine ⟨?_, hmax⟩
    rcases hins.window with ⟨-, hactive, -⟩ | ⟨-, oldest, first, holdest, hactive, hhead, -⟩
    · rw [hactive]
      exact ExtTreeMap.mem_insert_self
    · -- There would be nothing left.
      rw [hempty] at holdest hactive
      obtain ⟨o, ho⟩ := mem_iff_exists.mp (ExtTreeMap.mem_keys.mp (List.mem_of_head? hhead))
      rw [hactive] at ho
      obtain ⟨hne, hold⟩ := getElem?_of_erase ho
      rcases getElem?_of_insert holdest with ⟨hmin, -⟩ | hnone
      · rcases getElem?_of_insert hold with ⟨hid, -⟩ | hnone
        · exact absurd (hid.trans hmin.symm) hne
        · simp at hnone
      · simp at hnone
  · obtain ⟨-, hlargest, hle⟩ := h.largest hfirst
    have hlt := maxId_lt hnew hmem hlargest
    refine ⟨?_, by rw [hins.maxId, if_pos hlt]⟩
    rcases hins.window with ⟨-, hactive, -⟩ | ⟨-, _, _, -, hactive, -⟩
    · rw [hactive]
      exact ExtTreeMap.mem_insert_self
    · rw [hactive, if_neg (by omega), ExtTreeMap.mem_erase]
      refine ⟨fun heq => ?_, ExtTreeMap.mem_insert_self⟩
      have := Std.compare_eq_iff_eq.mp heq
      omega

theorem Latest.step {stale : Int → String} {s s' : World × List Int} {c : Call}
    (h : Latest s.1 s.2) (hc : Careful s c) (hcall : logged stale s c = some s') :
    Latest s'.1 s'.2 := by
  have hranged := h.ranged.step hcall
  obtain ⟨-, -, -, hcases⟩ := logged_cases h.ranged.sound h.ranged.bounded hcall
  rcases hcases with ⟨hadded, hactive, hmin, hmax⟩ |
    ⟨id, _, rfl, hfast, hmem, hadded, hactive, hmin, hmax⟩ |
    ⟨id, -, hadded, hnew, hmem, hpos, -, -, hins⟩
  · refine ⟨hranged, ?_, ?_, ?_⟩
    · rw [hactive]
      exact h.null
    · rw [hadded, hactive, hmin, hmax]
      exact h.idle
    · rw [hadded, hactive, hmin, hmax]
      exact h.largest
  · -- The null entry is at 0, for the largest id is there.
    have hne : s.2 ≠ [] := fun hnil => by
      obtain ⟨hzero, hidle⟩ := hc hnil
      exact hfast.elim hzero hidle
    obtain ⟨hpos, hlargest, hle⟩ := h.largest hne
    have hzero : id = 0 := hfast.resolve_right fun hid => hmem (hid ▸ hlargest)
    refine ⟨hranged, fun k hk => ?_, fun hnil => absurd (hadded ▸ hnil) hne, fun _ => ?_⟩
    · rw [hactive] at hk
      rcases getElem?_of_insert hk with ⟨rfl, -⟩ | hold
      · exact hzero
      · exact h.null k hold
    · rw [hactive, hmin, hmax]
      exact ⟨hpos, ExtTreeMap.mem_insert.mpr (.inr hlargest), hle⟩
  · have hnull : ∀ k : Int, s'.1.active[k]? = some none → k = 0 := by
      intro k hk
      rcases hins.active_cases hk with ⟨-, heq⟩ | hold
      · cases heq
      · exact h.null k hold
    obtain ⟨hmem', hmax⟩ := h.inserted hnew hmem hpos hins
    refine ⟨hranged, hnull, fun hnil => ?_, fun _ => ?_⟩
    · rw [hadded] at hnil
      simp at hnil
    · rw [hmax]
      exact ⟨hpos, hmem', hins.minId_le hmem' (.inl rfl)⟩

theorem Latest.of_init (random n : Nat) : Latest (init random n) [] :=
  ⟨Ranged.of_init random n, fun k hk => by simp [init] at hk, fun _ => ⟨rfl, rfl, rfl⟩,
    fun hne => absurd rfl hne⟩

theorem Latest.present {w : World} {added : List Int} (h : Latest w added) (hadded : added ≠ [])
    {id : Int} (hid : id ≠ 0) (isScoped : Bool) : Present w id isScoped := by
  refine ⟨?_, fun _ _ hnull => hid (h.null id hnull)⟩
  rintro rfl
  exact (h.largest hadded).2.1

/-- **When `GetSnapshot` is a pure lookup**, in every state with a version added: never for 0, and
for any other id if and only if the entry it reads is there, which is so where nobody asked for the
latest before the first version. -/
theorem looksUp_iff {stale : Int → String} {random numVersions : Nat} {calls : List Call} {w : World}
    {added : List Int}
    (hrun : runSteps (logged stale) (init random numVersions, []) calls = some (w, added))
    (hadded : added ≠ []) :
    (∀ id isScoped, LooksUp w id isScoped ↔ id ≠ 0 ∧ Present w id isScoped) ∧
    (Along (logged stale) Careful (init random numVersions, []) calls →
      ∀ id isScoped, LooksUp w id isScoped ↔ id ≠ 0) := by
  have h : w.Ranged := @runSteps_inv _ _ (logged stale) (fun s => s.1.Ranged)
    (fun _ _ _ h hcall => h.step hcall) _ _ _ (Ranged.of_init random numVersions) hrun
  refine ⟨fun id isScoped => h.looksUp_iff_present id isScoped, fun halong id isScoped => ?_⟩
  have hlatest : Latest w added := @Along.runSteps_inv _ _ (logged stale) Careful
    (fun s => Latest s.1 s.2) (fun _ _ _ h hc hcall => h.step hc hcall) _ _ _
    (Latest.of_init random numVersions) halong hrun
  rw [h.looksUp_iff_present]
  exact and_iff_left_of_imp fun hid => hlatest.present hadded hid isScoped

/-- Two versions, the first of which is in use. -/
theorem looksUp_iff_two : ∃ w added,
    runSteps (logged fun _ => "c_1") (init 3 1, []) [.add 1, .getSnapshot 1 true, .add 2] =
      some (w, added) ∧
    (∀ id isScoped, LooksUp w id isScoped ↔ id ≠ 0 ∧ Present w id isScoped) ∧
    ∀ id isScoped, LooksUp w id isScoped ↔ id ≠ 0 := by
  have hcareful : Along (logged fun _ => "c_1") Careful (init 3 1, [])
      [.add 1, .getSnapshot 1 true, .add 2] := by
    decide +kernel
  obtain ⟨hpresent, hall⟩ := @looksUp_iff (fun _ => "c_1") 3 1 [.add 1, .getSnapshot 1 true, .add 2]
    _ _ rfl (by decide +kernel)
  exact ⟨_, _, rfl, hpresent, hall hcareful⟩

/-- Asked for the latest, it finds nothing and puts in a null entry, which a handle does not take. -/
theorem not_looksUp : ∃ w, runSteps (logged fun _ => "c_1") (init 3 1, []) [.add 1] =
      some (w, [1]) ∧
    ¬ LooksUp w 0 false ∧ ¬ LooksUp w 0 true ∧
    (∃ w', w.getSnapshotWith 0 false = some (none, w') ∧ w'.active ≠ w.active) ∧
    w.getSnapshotWith 0 true = none := by
  refine ⟨_, rfl, ?_, ?_, ⟨_, rfl, ?_⟩, rfl⟩
  · rintro ⟨r, w', hget, hactive, -⟩
    cases hget
    exact absurd (congrArg ExtTreeMap.size hactive) (by decide +kernel)
  · rintro ⟨r, w', hget, -⟩
    cases hget
  · intro hactive
    exact absurd (congrArg ExtTreeMap.size hactive) (by decide +kernel)

end World

end CxxLab.NewMetaLab
