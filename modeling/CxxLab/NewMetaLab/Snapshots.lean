import CxxLab.Lib.Run
import CxxLab.NewMetaLab.Resources
import Mathlib.Algebra.Ring.Int.Defs

/-!
# `new_meta_lab/Snapshots.h` — snapshots and how long they last

A `Snapshot` of a commit holds one reference on the commit and one on its collection. The
`SnapshotsHolder` keeps the newest `num_versions` of them active, with one reference on each; an
evicted one goes to `to_release_` with that reference, and the collector drops it. Handles are
scoped references. So three counts hang on one another: the last release of a snapshot drops the
references on the commit and the collection, and those take the rows out of the store.

The proof is one equation, `Counts`: the count of a snapshot is the number of places that hold it
— active, waiting for the collector, handles — and its rows are there exactly as long as that is
not zero. Every step moves a reference from one place to another or drops one.
-/

set_option autoImplicit false

namespace CxxLab.NewMetaLab

open Std CxxLab.Lib

/-- The two pointers of a `Snapshot`, into the memories of the two holders. -/
structure Snapshot where
  collection : Nat
  collectionCommit : Nat
  deriving Inhabited

/-- `std::numeric_limits<ID_TYPE>::min()`. -/
def idMin : Int := -2 ^ 63

/-- `std::numeric_limits<ID_TYPE>::max()`. -/
def idMax : Int := 2 ^ 63 - 1

/-- A `SnapshotsHolder` with everything it works on. Pointers to snapshots can be null: the map
makes null entries for ids it does not have. -/
structure World where
  store : Store
  collections : CollectionsHolder
  commits : ResourceHolder CollectionCommit
  /-- The snapshots in memory. -/
  snapshots : Nat → Counted Snapshot
  nextSnapshot : Nat
  active : IdMap (Option Nat)
  toRelease : List (Option Nat)
  minId : Int
  maxId : Int
  numVersions : Nat
  done : Bool
  /-- The scoped handles a program has in hand. -/
  handles : List Nat

namespace World

/-- `SnapshotsHolder(num_versions)`, over a store with `random` collections. -/
def init (random numVersions : Nat) : World where
  store := Store.fill random
  collections := { ResourceHolder.new with nameMap := ∅ }
  commits := ResourceHolder.new
  snapshots := fun _ => default
  nextSnapshot := 0
  active := ∅
  toRelease := []
  minId := idMax
  maxId := idMin
  numVersions := numVersions
  done := false
  handles := []

/-! ## Dropping references -/

/-- `ResourceHolder::OnNoRefCallBack` for a commit. -/
def onNoRefCommit (ptr : Nat) (w : World) : World :=
  let id := (w.commits.objects ptr).value.id
  { w with store := w.store.removeCollectionCommit id, commits := w.commits.release id }

/-- `UnRef` of a commit. -/
def unRefCommit (ptr : Nat) (w : World) : World :=
  let (o, n) := (w.commits.objects ptr).unRef
  (onNoRefCommit ptr)^[n] { w with commits := w.commits.update ptr fun _ => o }

/-- `ResourceHolder::OnNoRefCallBack` for a collection. -/
def onNoRefCollection (stale : Int → String) (ptr : Nat) (w : World) : World :=
  let id := (w.collections.objects ptr).value.id
  { w with store := w.store.removeCollection id,
           collections := w.collections.release (stale id) id }

/-- `UnRef` of a collection. -/
def unRefCollection (stale : Int → String) (ptr : Nat) (w : World) : World :=
  let (o, n) := (w.collections.objects ptr).unRef
  (onNoRefCollection stale ptr)^[n]
    { w with collections := { w.collections with
      toResourceHolder := w.collections.toResourceHolder.update ptr fun _ => o } }

/-- `Snapshot::UnRefAll`. -/
def unRefAll (stale : Int → String) (s : Nat) (w : World) : World :=
  let w := w.unRefCommit (w.snapshots s).value.collectionCommit
  w.unRefCollection stale (w.snapshots s).value.collection

/-- Change one snapshot. -/
def updateSnapshot (s : Nat) (f : Counted Snapshot → Counted Snapshot) (w : World) : World :=
  { w with snapshots := Function.update w.snapshots s (f (w.snapshots s)) }

/-- `UnRef` of a snapshot. -/
def unRefSnapshot (stale : Int → String) (s : Nat) (w : World) : World :=
  let (o, n) := (w.snapshots s).unRef
  (unRefAll stale s)^[n] (w.updateSnapshot s fun _ => o)

/-! ## The holder -/

/-- `Snapshot::Snapshot`. It asserts that there is a commit, and dereferences the collection. -/
def newSnapshot (w : World) (id : Int) : Option (Nat × World) := do
  let (commit, commits) :=
    w.commits.getResource CollectionCommit.id w.store.getCollectionCommit id
  let commit ← commit
  let (collection, collections) := w.collections.toResourceHolder.getResource Collection.id
    w.store.getCollection (commits.objects commit).value.collectionId
  let collection ← collection
  return (w.nextSnapshot,
    { w with
      commits := commits.update commit Counted.ref
      collections :=
        { w.collections with toResourceHolder := collections.update collection Counted.ref }
      snapshots := Function.update w.snapshots w.nextSnapshot ⟨⟨collection, commit⟩, 0, 0⟩
      nextSnapshot := w.nextSnapshot + 1 })

/-- The end of `SnapshotsHolder::Add`: with too many active the one of `min_id_` is evicted. -/
def evict (w : World) : Option World := do
  if w.active.size ≤ w.numVersions then
    return w
  let oldest ← w.active[w.minId]?
  let active := w.active.erase w.minId
  let first ← active.keys.head?
  return { w with active := active, minId := first, toRelease := w.toRelease ++ [oldest] }

/-- `SnapshotsHolder::Add`. -/
def add (w : World) (id : Int) : Option (Bool × World) := do
  if w.active.size > 0 ∧ id < w.maxId then
    return (false, w)
  let (s, w) ← w.newSnapshot id
  if w.done then
    return (false, w)
  let w := w.updateSnapshot s fun o => o.registerOnNoRefCB.ref
  if id ∈ w.active then
    return (false, w)
  let w ← evict { w with
    minId := if w.minId > id then id else w.minId
    maxId := if w.maxId < id then id else w.maxId
    active := w.active.insert id (some s) }
  return (true, w)

/-- `ScopedSnapshotT(ss)`, which takes a reference. -/
def scopedHandle (w : World) : Option Nat → Option (Option Nat × World)
  | none => none
  | some s => some (some s, w.updateSnapshot s Counted.ref)

/-- `SnapshotsHolder::GetSnapshot`, scoped. -/
def getSnapshot (w : World) (id : Int) : Option (Option Nat × World) :=
  if id = 0 ∨ id = w.maxId then
    match w.active[id]? with
    | some ss => w.scopedHandle ss
    | none => { w with active := w.active.insert id none }.scopedHandle none
  else if id < w.minId ∨ id > w.maxId then some (none, w)
  else
    match w.active[id]? with
    | none => some (none, w)
    | some ss => w.scopedHandle ss

/-- The loop over `sss` in `BackgroundGC`. -/
def unRefEach (stale : Int → String) : List (Option Nat) → World → Option World
  | [], w => some w
  | none :: _, _ => none
  | some s :: sss, w => unRefEach stale sss (w.unRefSnapshot stale s)

/-- One pass of the loop of `SnapshotsHolder::BackgroundGC`. -/
def gcPass (stale : Int → String) (w : World) : Option World :=
  if w.done then some w else unRefEach stale w.toRelease { w with toRelease := [] }

/-! ## Runs -/

inductive Op where
  | add (id : Int)
  | getSnapshot (id : Int)
  /-- Destroy one of the handles on a snapshot. -/
  | destroyHandle (s : Nat)
  | gcPass

/-- What a call does, whatever the counts become. -/
def move (stale : Int → String) (w : World) : Op → Option World
  | .add id => do
    let (_, w) ← w.add id
    return w
  | .getSnapshot id => do
    match ← w.getSnapshot id with
    | (some s, w) => return { w with handles := s :: w.handles }
    | (none, w) => return w
  | .destroyHandle s => some ({ w with handles := w.handles.erase s }.unRefSnapshot stale s)
  | .gcPass => w.gcPass stale

/-- The count of every object made so far is an `int`. -/
def IntCounts (w : World) : Prop :=
  (∀ s, s < w.nextSnapshot → (w.snapshots s).refcnt ≤ intMax) ∧
    (∀ k, k < w.commits.next → (w.commits.objects k).refcnt ≤ intMax) ∧
    ∀ k, k < w.collections.next → (w.collections.objects k).refcnt ≤ intMax

instance (w : World) : Decidable w.IntCounts :=
  inferInstanceAs (Decidable ((∀ s, s < w.nextSnapshot → (w.snapshots s).refcnt ≤ intMax) ∧
    (∀ k, k < w.commits.next → (w.commits.objects k).refcnt ≤ intMax) ∧
    ∀ k, k < w.collections.next → (w.collections.objects k).refcnt ≤ intMax))

/-- A step. One that counts an object past the largest `int` has no result. No call counts an object twice,
or counts it and then drops a reference on it, so that the counts after the call show it. -/
def step (stale : Int → String) (w : World) (op : Op) : Option World := do
  let w' ← w.move stale op
  if w'.IntCounts then return w' else none

/-- `Snapshot::GetID`. -/
def getID (w : World) (s : Nat) : Int :=
  (w.commits.objects (w.snapshots s).value.collectionCommit).value.id

/-- What is called when: ids are `int64_t`s the store has, each larger than those of all snapshots
made so far; handles are taken on active ids other than 0. -/
def Allowed (w : World) : Op → Prop
  | .add id =>
    idMin ≤ id ∧ id ≤ idMax ∧ id ∈ w.store.collectionCommit ∧
      ∀ s, s < w.nextSnapshot → w.getID s < id
  | .getSnapshot id => id ≠ 0 ∧ id ∈ w.active
  | .destroyHandle s => s ∈ w.handles
  | .gcPass => True

/-- The snapshot has been evicted, has left `to_release_`, and has no handle. -/
def Released (w : World) (s : Nat) : Prop :=
  (∀ id : Int, w.active[id]? ≠ some (some s)) ∧ some s ∉ w.toRelease ∧ s ∉ w.handles

/-- The id snapshot `s` was made for. Each `Add` makes one snapshot, one commit and one collection
object, so the three have the same number. -/
def idOf (w : World) (s : Nat) : Int := (w.commits.objects s).value.id

/-- The places that hold a snapshot: the map, the collector's list and the handles. -/
def holds (w : World) (s : Nat) : Nat :=
  (if w.active[w.idOf s]? = some (some s) then 1 else 0) + w.toRelease.count (some s) +
    w.handles.count s

/-- There is room in the count of the snapshot for one handle more. -/
def Fits (w : World) : Op → Prop
  | .getSnapshot id => ∀ s, w.active[id]? = some (some s) → w.holds s < intMax
  | _ => True

/-- The rows of an id are gone, from the store and from the holders. -/
structure Removed (w : World) (id : Int) : Prop where
  commit : id ∉ w.store.collectionCommit
  collection : id ∉ w.store.idCollections
  commitCache : id ∉ w.commits.idMap
  collectionCache : id ∉ w.collections.idMap

/-- **What the counting is for.** Rows of the store are gone only where a snapshot was made for them that is
released; and the rows of every released snapshot are gone, from the store and from the holders. -/
structure Retained (random : Nat) (w : World) : Prop where
  gone : ∀ id : Int, 1 ≤ id → id ≤ random →
    id ∉ w.store.collectionCommit ∨ id ∉ w.store.idCollections →
    ∃ s, s < w.nextSnapshot ∧ w.getID s = id ∧ w.Released s
  removed : ∀ s, s < w.nextSnapshot → w.Released s → w.Removed (w.getID s)

/-! ## The books -/

/-- How the objects hang together. -/
structure Objects (w : World) : Prop where
  nextCommit : w.commits.next = w.nextSnapshot
  nextCollection : w.collections.next = w.nextSnapshot
  snapshot : ∀ s, s < w.nextSnapshot → (w.snapshots s).value = ⟨s, s⟩
  callbacks : ∀ s, s < w.nextSnapshot → (w.snapshots s).callbacks = 1
  collection : ∀ s, s < w.nextSnapshot → (w.collections.objects s).value.id = w.idOf s
  ids : ∀ s s', s < s' → s' < w.nextSnapshot → w.idOf s < w.idOf s'

/-- The rows of a snapshot are there, with one reference on each of its objects. -/
structure Kept (w : World) (s : Nat) : Prop where
  commit : w.idOf s ∈ w.store.collectionCommit
  collection : w.idOf s ∈ w.store.idCollections
  commitCache : w.commits.idMap[w.idOf s]? = some s
  collectionCache : w.collections.idMap[w.idOf s]? = some s
  commitCount : (w.commits.objects s).refcnt = 1
  commitCallbacks : (w.commits.objects s).callbacks = 1
  collectionCount : (w.collections.objects s).refcnt = 1
  collectionCallbacks : (w.collections.objects s).callbacks = 1

/-- **The books**: the count of a snapshot is what holds it, and its rows are there exactly as long
as something does. Rows of ids no snapshot was made for are untouched. -/
structure Counts (random : Nat) (w : World) (holds : Nat → Nat) : Prop where
  refcnt : ∀ s, s < w.nextSnapshot → (w.snapshots s).refcnt = holds s
  kept : ∀ s, s < w.nextSnapshot → 0 < holds s → w.Kept s
  removed : ∀ s, s < w.nextSnapshot → holds s = 0 → w.Removed (w.idOf s)
  uncached : ∀ id : Int, (∀ s, s < w.nextSnapshot → w.idOf s ≠ id) →
    w.commits.idMap[id]? = none ∧ w.collections.idMap[id]? = none
  rows : ∀ id : Int, 1 ≤ id → id ≤ random → (∀ s, s < w.nextSnapshot → w.idOf s ≠ id) →
    id ∈ w.store.collectionCommit ∧ id ∈ w.store.idCollections
  commitRow : ∀ (id : Int) c, w.store.collectionCommit[id]? = some c →
    c = ⟨id, id⟩ ∧ ∃ col, w.store.idCollections[id]? = some col ∧ col.id = id
  rowCounts : ∀ s, s < w.nextSnapshot →
    (w.commits.objects s).refcnt ≤ 1 ∧ (w.collections.objects s).refcnt ≤ 1

theorem Objects.idOf_ne {w : World} (h : w.Objects) {s s' : Nat} (hs : s < w.nextSnapshot)
    (hs' : s' < w.nextSnapshot) (hne : s' ≠ s) : w.idOf s' ≠ w.idOf s := by
  rcases Nat.lt_or_gt_of_ne hne with hlt | hgt
  · exact Int.ne_of_lt (h.ids s' s hlt hs)
  · exact Int.ne_of_gt (h.ids s s' hgt hs')

/-! ### Dropping a reference -/

/-- The world without the rows of snapshot `s`, and its objects without references. -/
def forget (stale : Int → String) (s : Nat) (w : World) : World :=
  { w with
    store := (w.store.removeCollectionCommit (w.idOf s)).removeCollection (w.idOf s)
    commits := (w.commits.update s fun o => { o with refcnt := 0 }).release (w.idOf s)
    collections := CollectionsHolder.release
      { w.collections with
        toResourceHolder := w.collections.update s fun o => { o with refcnt := 0 } }
      (stale (w.idOf s)) (w.idOf s)
    snapshots := Function.update w.snapshots s { w.snapshots s with refcnt := 0 } }

/-- The last `UnRef` of a snapshot runs all the callbacks down to the store. -/
theorem unRefSnapshot_last {stale : Int → String} {s : Nat} {w : World} (h : w.Objects)
    (hs : s < w.nextSnapshot) (hk : w.Kept s) (hcount : (w.snapshots s).refcnt = 1) :
    w.unRefSnapshot stale s = w.forget stale s := by
  have hid := h.collection s hs
  unfold idOf at hid
  simp [unRefSnapshot, Counted.unRef, hcount, h.callbacks s hs, unRefAll, updateSnapshot,
    h.snapshot s hs, unRefCommit, hk.commitCount, hk.commitCallbacks, onNoRefCommit,
    unRefCollection, hk.collectionCount, hk.collectionCallbacks, onNoRefCollection,
    ResourceHolder.update, forget, idOf, hid, ResourceHolder.release]

theorem unRefSnapshot_more {stale : Int → String} {s k : Nat} {w : World}
    (hcount : (w.snapshots s).refcnt = k + 2) :
    w.unRefSnapshot stale s = w.updateSnapshot s fun o => { o with refcnt := k + 1 } := by
  simp [unRefSnapshot, Counted.unRef, hcount, updateSnapshot]

/-- What dropping a reference leaves alone. -/
structure Frame (w w' : World) : Prop where
  nextSnapshot : w'.nextSnapshot = w.nextSnapshot
  idOf : ∀ s, w'.idOf s = w.idOf s
  active : w'.active = w.active
  toRelease : w'.toRelease = w.toRelease
  minId : w'.minId = w.minId
  maxId : w'.maxId = w.maxId
  numVersions : w'.numVersions = w.numVersions
  done : w'.done = w.done
  handles : w'.handles = w.handles

theorem Frame.trans {w w' w'' : World} (h : Frame w w') (h' : Frame w' w'') : Frame w w'' :=
  ⟨h'.nextSnapshot.trans h.nextSnapshot, fun s => (h'.idOf s).trans (h.idOf s),
    h'.active.trans h.active, h'.toRelease.trans h.toRelease, h'.minId.trans h.minId,
    h'.maxId.trans h.maxId, h'.numVersions.trans h.numVersions, h'.done.trans h.done,
    h'.handles.trans h.handles⟩

section

variable {stale : Int → String} {random s : Nat} {w : World} {holds : Nat → Nat}

theorem idOf_forget (s' : Nat) : (w.forget stale s).idOf s' = w.idOf s' := by
  simp only [idOf, forget, ResourceHolder.release, ResourceHolder.update, Function.update_apply]
  split
  · rename_i hs'; rw [hs']
  · rfl

theorem frame_forget : Frame w (w.forget stale s) :=
  ⟨rfl, idOf_forget, rfl, rfl, rfl, rfl, rfl, rfl, rfl⟩

theorem frame_updateSnapshot (f : Counted Snapshot → Counted Snapshot) :
    Frame w (w.updateSnapshot s f) :=
  ⟨rfl, fun _ => rfl, rfl, rfl, rfl, rfl, rfl, rfl, rfl⟩

/-- A change to the count of a snapshot does not change what it points to. -/
theorem Objects.updateSnapshot (h : w.Objects) {f : Counted Snapshot → Counted Snapshot}
    (hvalue : ∀ o, (f o).value = o.value) (hcb : ∀ o, (f o).callbacks = o.callbacks) :
    (w.updateSnapshot s f).Objects := by
  refine ⟨h.nextCommit, h.nextCollection, fun s' hs' => ?_, fun s' hs' => ?_, h.collection, h.ids⟩
  · simp only [World.updateSnapshot, Function.update_apply]
    split
    · rename_i heq
      subst heq
      rw [hvalue, h.snapshot s' hs']
    · exact h.snapshot s' hs'
  · simp only [World.updateSnapshot, Function.update_apply]
    split
    · rename_i heq
      subst heq
      rw [hcb, h.callbacks s' hs']
    · exact h.callbacks s' hs'

theorem Objects.forget (h : w.Objects) : (w.forget stale s).Objects := by
  have hsnap : ∀ s', ((w.forget stale s).snapshots s').value = (w.snapshots s').value ∧
      ((w.forget stale s).snapshots s').callbacks = (w.snapshots s').callbacks := by
    intro s'
    simp only [World.forget, Function.update_apply]
    split
    · rename_i heq
      subst heq
      exact ⟨rfl, rfl⟩
    · exact ⟨rfl, rfl⟩
  refine ⟨h.nextCommit, ?_, fun s' hs' => (hsnap s').1.trans (h.snapshot s' hs'),
    fun s' hs' => (hsnap s').2.trans (h.callbacks s' hs'), fun s' hs' => ?_, fun s₁ s₂ h₁ h₂ => ?_⟩
  · simpa [World.forget, ResourceHolder.update] using h.nextCollection
  · rw [idOf_forget, ← h.collection s' hs']
    simp only [World.forget, CollectionsHolder.objects_release, ResourceHolder.update,
      Function.update_apply]
    split
    · rename_i heq; rw [heq]
    · rfl
  · rw [idOf_forget, idOf_forget]
    exact h.ids s₁ s₂ h₁ h₂

/-- The rows of another snapshot do not notice. -/
theorem Kept.forget (h : w.Objects) (hs : s < w.nextSnapshot) {s' : Nat}
    (hs' : s' < w.nextSnapshot) (hne : s' ≠ s) (hk : w.Kept s') : (w.forget stale s).Kept s' := by
  have hid := h.idOf_ne hs hs' hne
  have hcommits : (w.forget stale s).commits.objects s' = w.commits.objects s' :=
    Function.update_of_ne hne _ _
  have hcolls : (w.forget stale s).collections.objects s' = w.collections.objects s' := by
    simp only [World.forget, CollectionsHolder.objects_release]
    exact Function.update_of_ne hne _ _
  refine ⟨?_, ?_, ?_, ?_, ?_, ?_, ?_, ?_⟩
  · rw [idOf_forget, mem_iff_exists]
    simp only [World.forget, Store.collectionCommit_removeCollection,
      Store.getElem?_removeCollectionCommit, if_neg hid]
    exact mem_iff_exists.mp hk.commit
  · rw [idOf_forget, mem_iff_exists]
    simp only [World.forget, Store.getElem?_removeCollection, if_neg hid]
    exact mem_iff_exists.mp hk.collection
  · rw [idOf_forget]
    simp only [World.forget, ResourceHolder.release, getElem?_erase_eq, if_neg hid]
    exact hk.commitCache
  · rw [idOf_forget]
    simp only [World.forget, CollectionsHolder.getElem?_release, if_neg hid]
    exact hk.collectionCache
  · rw [hcommits]; exact hk.commitCount
  · rw [hcommits]; exact hk.commitCallbacks
  · rw [hcolls]; exact hk.collectionCount
  · rw [hcolls]; exact hk.collectionCallbacks

theorem removed_forget : (w.forget stale s).Removed (w.idOf s) := by
  refine ⟨?_, ?_, ?_, ?_⟩ <;> rw [not_mem_iff] <;> simp only [World.forget,
    Store.collectionCommit_removeCollection, Store.getElem?_removeCollectionCommit,
    Store.getElem?_removeCollection, ResourceHolder.release, getElem?_erase_eq,
    CollectionsHolder.getElem?_release, if_true]

theorem Removed.forget {id : Int} (h : w.Removed id) : (w.forget stale s).Removed id := by
  obtain ⟨h₁, h₂, h₃, h₄⟩ := h
  rw [not_mem_iff] at h₁ h₂ h₃ h₄
  refine ⟨?_, ?_, ?_, ?_⟩ <;> rw [not_mem_iff] <;> simp only [World.forget,
    Store.collectionCommit_removeCollection, Store.getElem?_removeCollectionCommit,
    Store.getElem?_removeCollection, ResourceHolder.release, ResourceHolder.update,
    getElem?_erase_eq, CollectionsHolder.getElem?_release, ite_eq_left_iff]
  · exact fun _ => h₁
  · exact fun _ => h₂
  · exact fun _ => h₃
  · exact fun _ => h₄

/-- The counter of a snapshot that is held changes with the number of its holders. -/
theorem Counts.updateSnapshot (hc : Counts random w holds) {n k : Nat} (hheld : 0 < holds s)
    (hk : 0 < k) (hcount : s < w.nextSnapshot → n = k) :
    Counts random (w.updateSnapshot s fun o => { o with refcnt := n })
      (Function.update holds s k) := by
  refine ⟨fun s' hs' => ?_, fun s' hs' hpos => ?_, fun s' hs' hzero => ?_, hc.uncached, hc.rows,
    hc.commitRow, hc.rowCounts⟩
  · simp only [World.updateSnapshot, Function.update_apply]
    split
    · rename_i heq
      exact hcount (heq ▸ hs')
    · exact hc.refcnt s' hs'
  · have hpos' : 0 < holds s' := by
      rw [Function.update_apply] at hpos
      split at hpos
      · rename_i heq; rw [heq]; exact hheld
      · exact hpos
    obtain ⟨h₁, h₂, h₃, h₄, h₅, h₆, h₇, h₈⟩ := hc.kept s' hs' hpos'
    exact ⟨h₁, h₂, h₃, h₄, h₅, h₆, h₇, h₈⟩
  · rw [Function.update_apply] at hzero
    split at hzero
    · omega
    · obtain ⟨h₁, h₂, h₃, h₄⟩ := hc.removed s' hs' hzero
      exact ⟨h₁, h₂, h₃, h₄⟩

/-- The rows of a snapshot nobody holds any more go, and those of the others stay. -/
theorem Counts.forget (h : w.Objects) (hc : Counts random w holds) (hs : s < w.nextSnapshot) :
    Counts random (w.forget stale s) (Function.update holds s 0) := by
  refine ⟨fun s' hs' => ?_, fun s' hs' hpos => ?_, fun s' hs' hzero => ?_, fun id hid => ?_,
    fun id hlow hhigh hid => ?_, fun id c hrow => ?_, fun s' hs' => ?_⟩
  · simp only [World.forget, Function.update_apply]
    split
    · rfl
    · exact hc.refcnt s' hs'
  · rw [Function.update_apply] at hpos
    split at hpos
    · omega
    · rename_i hne
      exact (hc.kept s' hs' hpos).forget h hs hs' hne
  · rw [idOf_forget]
    rw [Function.update_apply] at hzero
    split at hzero
    · rename_i heq
      rw [heq]
      exact removed_forget
    · exact (hc.removed s' hs' hzero).forget
  · obtain ⟨h₁, h₂⟩ := hc.uncached id fun s' hs' => by rw [← idOf_forget]; exact hid s' hs'
    simp only [World.forget, ResourceHolder.release, ResourceHolder.update, getElem?_erase_eq,
      CollectionsHolder.getElem?_release, h₁, h₂, ite_self, and_self]
  · have hid' : ∀ s', s' < w.nextSnapshot → w.idOf s' ≠ id :=
      fun s' hs' => by rw [← idOf_forget]; exact hid s' hs'
    obtain ⟨h₁, h₂⟩ := hc.rows id hlow hhigh hid'
    have hne : id ≠ w.idOf s := (hid' s hs).symm
    rw [mem_iff_exists, mem_iff_exists]
    simp only [World.forget, Store.collectionCommit_removeCollection,
      Store.getElem?_removeCollectionCommit, Store.getElem?_removeCollection, if_neg hne]
    exact ⟨mem_iff_exists.mp h₁, mem_iff_exists.mp h₂⟩
  · simp only [World.forget, Store.collectionCommit_removeCollection,
      Store.getElem?_removeCollectionCommit, Store.getElem?_removeCollection] at hrow ⊢
    split at hrow
    · cases hrow
    · rename_i hne
      rw [if_neg hne]
      exact hc.commitRow id c hrow
  · simp only [World.forget, CollectionsHolder.objects_release, ResourceHolder.release,
      ResourceHolder.update, Function.update_apply]
    split
    · exact ⟨Nat.zero_le _, Nat.zero_le _⟩
    · exact hc.rowCounts s' hs'

variable (stale) in
/-- **Dropping a reference keeps the books**: with the last one the rows go. -/
theorem Counts.unRef (h : w.Objects) (hc : Counts random w holds) (hs : s < w.nextSnapshot) {k : Nat}
    (hk : holds s = k + 1) :
    (w.unRefSnapshot stale s).Objects ∧
      Counts random (w.unRefSnapshot stale s) (Function.update holds s k) ∧
      Frame w (w.unRefSnapshot stale s) := by
  have hcount := hc.refcnt s hs
  rw [hk] at hcount
  rcases k with _ | k
  · rw [unRefSnapshot_last h hs (hc.kept s hs (by omega)) hcount]
    exact ⟨h.forget, hc.forget h hs, frame_forget⟩
  · rw [unRefSnapshot_more hcount]
    exact ⟨h.updateSnapshot (fun _ => rfl) fun _ => rfl,
      hc.updateSnapshot (by omega) (Nat.succ_pos k) fun _ => rfl, frame_updateSnapshot _⟩

end

/-! ### The window -/

/-- The holder's own fields. `active_` is never empty again after the first `Add`. -/
structure Window (w : World) : Prop where
  versions : 1 ≤ w.numVersions
  running : w.done = false
  active : ∀ (id : Int) o, w.active[id]? = some o → ∃ s, o = some s ∧ s < w.nextSnapshot ∧ w.idOf s = id
  toRelease : ∀ o ∈ w.toRelease, ∃ s, o = some s ∧ s < w.nextSnapshot
  handles : ∀ s ∈ w.handles, s < w.nextSnapshot
  minId_le : ∀ id ∈ w.active, w.minId ≤ id
  minId_mem : w.active.size ≠ 0 → w.minId ∈ w.active
  idle : w.active.size = 0 → w.nextSnapshot = 0 ∧ w.minId = idMax
  le_maxId : ∀ s, s < w.nextSnapshot → w.idOf s ≤ w.maxId
  maxId_eq : w.maxId = idMin ∨ ∃ s, s < w.nextSnapshot ∧ w.maxId = w.idOf s

theorem Window.of_frame {w w' : World} (h : w.Window) (hf : Frame w w') : w'.Window := by
  obtain ⟨hnext, hid, hactive, hrel, hmin, hmax, hnv, hdone, hhandles⟩ := hf
  constructor
  · rw [hnv]; exact h.versions
  · rw [hdone]; exact h.running
  · rw [hactive, hnext]
    intro id o ho
    obtain ⟨s, rfl, hs, hsid⟩ := h.active id o ho
    exact ⟨s, rfl, hs, (hid s).trans hsid⟩
  · rw [hrel, hnext]; exact h.toRelease
  · rw [hhandles, hnext]; exact h.handles
  · rw [hactive, hmin]; exact h.minId_le
  · rw [hactive, hmin]; exact h.minId_mem
  · rw [hactive, hnext, hmin]; exact h.idle
  · intro s hs
    rw [hid, hmax]
    exact h.le_maxId s (hnext ▸ hs)
  · rw [hmax]
    rcases h.maxId_eq with heq | ⟨s, hs, heq⟩
    · exact .inl heq
    · exact .inr ⟨s, hnext ▸ hs, heq.trans (hid s).symm⟩

/-- What every step keeps. -/
structure Inv (random : Nat) (w : World) : Prop where
  objects : w.Objects
  window : w.Window
  counts : Counts random w w.holds

theorem Counts.congr {random : Nat} {w : World} {f g : Nat → Nat} (h : Counts random w f)
    (heq : ∀ s, s < w.nextSnapshot → f s = g s) : Counts random w g :=
  ⟨fun s hs => (h.refcnt s hs).trans (heq s hs), fun s hs hpos => h.kept s hs (by rw [heq s hs]; exact hpos),
    fun s hs hzero => h.removed s hs (by rw [heq s hs]; exact hzero), h.uncached, h.rows, h.commitRow,
    h.rowCounts⟩

section

variable {random : Nat} {w : World} {f : Nat → Nat} (active : IdMap (Option Nat))
  (toRelease : List (Option Nat)) (minId maxId : Int) (numVersions : Nat) (done : Bool)
  (handles : List Nat)

/-- The holder's own fields are not part of the objects. -/
def withWindow (w : World) : World :=
  { w with active := active, toRelease := toRelease, minId := minId, maxId := maxId,
           numVersions := numVersions, done := done, handles := handles }

theorem Objects.withWindow (h : w.Objects) :
    (w.withWindow active toRelease minId maxId numVersions done handles).Objects :=
  ⟨h.nextCommit, h.nextCollection, h.snapshot, h.callbacks, h.collection, h.ids⟩

theorem Counts.withWindow (h : Counts random w f) :
    Counts random (w.withWindow active toRelease minId maxId numVersions done handles) f := by
  refine ⟨h.refcnt, fun s hs hpos => ?_, fun s hs hzero => ?_, h.uncached, h.rows, h.commitRow,
    h.rowCounts⟩
  · obtain ⟨h₁, h₂, h₃, h₄, h₅, h₆, h₇, h₈⟩ := h.kept s hs hpos
    exact ⟨h₁, h₂, h₃, h₄, h₅, h₆, h₇, h₈⟩
  · obtain ⟨h₁, h₂, h₃, h₄⟩ := h.removed s hs hzero
    exact ⟨h₁, h₂, h₃, h₄⟩

end

/-- A snapshot that nothing holds is released, and the other way round. -/
theorem Window.released_iff {w : World} (h : w.Window) {s : Nat} :
    w.Released s ↔ w.holds s = 0 := by
  constructor
  · rintro ⟨hactive, hrel, hhandles⟩
    rw [holds, if_neg (hactive _), List.count_eq_zero.mpr hrel, List.count_eq_zero.mpr hhandles]
  · intro hzero
    unfold holds at hzero
    refine ⟨?_, List.count_eq_zero.mp (by omega), List.count_eq_zero.mp (by omega)⟩
    intro id hid
    obtain ⟨s', hs', -, rfl⟩ := h.active id _ hid
    cases hs'
    rw [if_pos hid] at hzero
    omega

/-- **A handle is destroyed.** -/
theorem Inv.destroyHandle {stale : Int → String} {random s : Nat} {w : World} (h : Inv random w)
    (hs : s ∈ w.handles) :
    Inv random ({ w with handles := w.handles.erase s }.unRefSnapshot stale s) := by
  have hlt := h.window.handles s hs
  have hcount : w.holds s = w.holds s - 1 + 1 := by
    have := List.count_pos_iff.mpr hs
    unfold holds
    omega
  have hobj : World.Objects { w with handles := w.handles.erase s } :=
    h.objects.withWindow w.active w.toRelease w.minId w.maxId w.numVersions w.done _
  have hcounts : Counts random { w with handles := w.handles.erase s } w.holds :=
    h.counts.withWindow w.active w.toRelease w.minId w.maxId w.numVersions w.done _
  obtain ⟨hobj', hcounts', hframe⟩ := hcounts.unRef stale hobj hlt hcount
  have hwin : World.Window { w with handles := w.handles.erase s } := by
    obtain ⟨h₁, h₂, h₃, h₄, h₅, h₆, h₇, h₈, h₉, h₁₀⟩ := h.window
    exact ⟨h₁, h₂, h₃, h₄, fun s' hs' => h₅ s' (List.mem_of_mem_erase hs'), h₆, h₇, h₈, h₉, h₁₀⟩
  refine ⟨hobj', hwin.of_frame hframe, hcounts'.congr fun s' hs' => ?_⟩
  simp only [holds, hframe.active, hframe.idOf, hframe.toRelease, hframe.handles,
    Function.update_apply]
  show _ = (if w.active[w.idOf s']? = some (some s') then 1 else 0) + _ + _
  split
  · rename_i heq
    subst heq
    rw [List.count_erase_self]
    have := List.count_pos_iff.mpr hs
    omega
  · rename_i hne
    rw [List.count_erase_of_ne hne]

/-- The collector's loop: each turn drops one of the references it took over. -/
theorem unRefEach_inv {stale : Int → String} {random : Nat} : ∀ (sss : List (Option Nat)) (w : World),
    w.Objects → w.Window → (∀ o ∈ sss, ∃ s, o = some s ∧ s < w.nextSnapshot) →
    Counts random w (fun s => w.holds s + sss.count (some s)) →
    ∃ w', unRefEach stale sss w = some w' ∧ Inv random w' := by
  intro sss
  induction sss with
  | nil =>
    intro w hobj hwin _ hcounts
    exact ⟨w, rfl, hobj, hwin, hcounts.congr fun s _ => by simp⟩
  | cons o sss ih =>
    intro w hobj hwin hsss hcounts
    obtain ⟨s, rfl, hs⟩ := hsss o (by simp)
    obtain ⟨hobj', hcounts', hframe⟩ := hcounts.unRef stale (k := w.holds s +
      sss.count (some s)) hobj hs (by rw [List.count_cons_self]; omega)
    rw [unRefEach]
    refine ih _ hobj' (hwin.of_frame hframe) (fun o ho => ?_) (hcounts'.congr fun s' _ => ?_)
    · rw [hframe.nextSnapshot]
      exact hsss o (by simp [ho])
    · have hholds : (w.unRefSnapshot stale s).holds s' = w.holds s' := by
        simp only [holds, hframe.active, hframe.idOf, hframe.toRelease, hframe.handles]
      rw [hholds, Function.update_apply]
      split
      · rename_i heq; rw [heq]
      · rename_i hne
        rw [List.count_cons_of_ne (fun heq => hne (Option.some_inj.mp heq).symm)]

/-- **A pass of the collector.** -/
theorem Inv.gcPass {stale : Int → String} {random : Nat} {w : World} (h : Inv random w) :
    ∃ w', w.gcPass stale = some w' ∧ Inv random w' := by
  rw [World.gcPass, if_neg (by rw [h.window.running]; exact Bool.false_ne_true)]
  refine unRefEach_inv w.toRelease { w with toRelease := [] }
    (h.objects.withWindow w.active [] w.minId w.maxId w.numVersions w.done w.handles) ?_
    h.window.toRelease ?_
  · obtain ⟨h₁, h₂, h₃, h₄, h₅, h₆, h₇, h₈, h₉, h₁₀⟩ := h.window
    exact ⟨h₁, h₂, h₃, by simp, h₅, h₆, h₇, h₈, h₉, h₁₀⟩
  · refine Counts.congr
      (h.counts.withWindow w.active [] w.minId w.maxId w.numVersions w.done w.handles) fun s _ => ?_
    show w.holds s = (if w.active[w.idOf s]? = some (some s) then 1 else 0) + [].count (some s) +
      w.handles.count s + w.toRelease.count (some s)
    rw [holds, List.count_nil]
    omega

theorem Counts.ref {random s : Nat} {w : World} {f : Nat → Nat} (hc : Counts random w f)
    (hpos : 0 < f s) : Counts random (w.updateSnapshot s Counted.ref) (Function.update f s (f s + 1)) :=
  hc.updateSnapshot hpos (Nat.succ_pos _) fun hs => by rw [hc.refcnt s hs]

/-- `GetSnapshot` of an active id finds it, whichever branch it takes. -/
theorem Inv.getSnapshot_active {random : Nat} {w : World} (h : Inv random w) {id : Int}
    (hmem : id ∈ w.active) :
    ∃ s, w.active[id]? = some (some s) ∧ s < w.nextSnapshot ∧ w.idOf s = id ∧
      w.getSnapshot id = some (some s, w.updateSnapshot s Counted.ref) := by
  obtain ⟨o, ho⟩ := mem_iff_exists.mp hmem
  obtain ⟨s, rfl, hs, hsid⟩ := h.window.active id o ho
  refine ⟨s, ho, hs, hsid, ?_⟩
  have hmin := h.window.minId_le id hmem
  have hmax := h.window.le_maxId s hs
  rw [hsid] at hmax
  unfold World.getSnapshot
  rw [ho]
  split
  · rfl
  · rw [if_neg (by omega)]
    rfl

/-- **A handle is taken.** -/
theorem Inv.getSnapshot {stale : Int → String} {random : Nat} {w : World} (h : Inv random w)
    {id : Int} (hmem : id ∈ w.active) :
    ∃ s, w.active[id]? = some (some s) ∧ s < w.nextSnapshot ∧
      w.move stale (.getSnapshot id) =
        some { w.updateSnapshot s Counted.ref with handles := s :: w.handles } ∧
      Inv random { w.updateSnapshot s Counted.ref with handles := s :: w.handles } := by
  obtain ⟨s, hs, hlt, hsid, hrun⟩ := h.getSnapshot_active hmem
  have hpos : 0 < w.holds s := by
    rw [holds, hsid, if_pos hs]
    omega
  refine ⟨s, hs, hlt, ?_, ?_, ?_, ?_⟩
  · simp only [World.move, hrun, Option.bind_eq_bind, Option.bind_some, Option.pure_def]
    rfl
  · exact (h.objects.updateSnapshot (s := s) (f := Counted.ref) (fun _ => rfl) fun _ => rfl).withWindow
      w.active w.toRelease w.minId w.maxId w.numVersions w.done (s :: w.handles)
  · obtain ⟨h₁, h₂, h₃, h₄, h₅, h₆, h₇, h₈, h₉, h₁₀⟩ := h.window
    refine ⟨h₁, h₂, h₃, h₄, fun s' hs' => ?_, h₆, h₇, h₈, h₉, h₁₀⟩
    rcases List.mem_cons.mp hs' with rfl | hs'
    · exact hlt
    · exact h₅ s' hs'
  · refine Counts.congr ((h.counts.ref hpos).withWindow w.active w.toRelease w.minId w.maxId
      w.numVersions w.done (s :: w.handles)) fun s' _ => ?_
    show _ = (if w.active[w.idOf s']? = some (some s') then 1 else 0) + w.toRelease.count (some s') +
      (s :: w.handles).count s'
    rw [Function.update_apply]
    split
    · rename_i heq
      rw [heq, holds, List.count_cons_self]
      omega
    · rename_i hne
      rw [holds, List.count_cons_of_ne (Ne.symm hne)]

/-! ### A new snapshot -/

/-- The world with a snapshot of `id`, counted once, whose objects are new. -/
def made (w : World) (id : Int) (c : Collection) : World :=
  { w with
    commits :=
      { objects := Function.update w.commits.objects w.nextSnapshot ⟨⟨id, id⟩, 1, 1⟩
        next := w.nextSnapshot + 1
        idMap := w.commits.idMap.insert id w.nextSnapshot }
    collections :=
      { objects := Function.update w.collections.objects w.nextSnapshot ⟨c, 1, 1⟩
        next := w.nextSnapshot + 1
        idMap := w.collections.idMap.insert id w.nextSnapshot
        nameMap := w.collections.nameMap }
    snapshots := Function.update w.snapshots w.nextSnapshot ⟨⟨w.nextSnapshot, w.nextSnapshot⟩, 1, 1⟩
    nextSnapshot := w.nextSnapshot + 1 }

/-- The constructor of `Snapshot`, for an id that is in the store and not cached, and what `Add`
does to the new snapshot. -/
theorem newSnapshot_eq {random : Nat} {w : World} (h : Inv random w) {id : Int}
    (hrow : id ∈ w.store.collectionCommit) (hnew : ∀ s, s < w.nextSnapshot → w.idOf s ≠ id) :
    ∃ c w₁, w.store.idCollections[id]? = some c ∧ c.id = id ∧
      w.newSnapshot id = some (w.nextSnapshot, w₁) ∧
      (w₁.updateSnapshot w.nextSnapshot fun o => o.registerOnNoRefCB.ref) = w.made id c ∧
      w₁.done = w.done := by
  obtain ⟨cc, hcc⟩ := mem_iff_exists.mp hrow
  obtain ⟨rfl, c, hc, hcid⟩ := h.counts.commitRow id cc hcc
  obtain ⟨h₁, h₂⟩ := h.counts.uncached id hnew
  have hload₁ := ResourceHolder.getResource_load CollectionCommit.id
    w.store.getCollectionCommit h₁ hcc rfl
  have hload₂ := ResourceHolder.getResource_load Collection.id w.store.getCollection
    h₂ hc hcid
  let fresh : Counted Snapshot := ⟨⟨w.nextSnapshot, w.nextSnapshot⟩, 0, 0⟩
  let snapshots := Function.update w.snapshots w.nextSnapshot fresh
  refine ⟨c, { w.made id c with snapshots := snapshots }, hc, hcid, ?_, ?_, rfl⟩
  · rw [h.objects.nextCommit] at hload₁
    rw [h.objects.nextCollection] at hload₂
    simp [newSnapshot, hload₁, hload₂, made, ResourceHolder.update, Counted.ref, snapshots, fresh]
  · simp [World.updateSnapshot, made, Counted.registerOnNoRefCB, Counted.ref, snapshots, fresh]

section

variable {random : Nat} {w : World} {id : Int} {c : Collection}

variable (w id c) in
theorem idOf_made_self : (w.made id c).idOf w.nextSnapshot = id := by
  simp [idOf, made]

variable (id c) in
theorem idOf_made {s : Nat} (hs : s < w.nextSnapshot) : (w.made id c).idOf s = w.idOf s := by
  simp [idOf, made, Function.update_of_ne (Nat.ne_of_lt hs)]

theorem Objects.made (h : w.Objects) (hcid : c.id = id)
    (hgt : ∀ s, s < w.nextSnapshot → w.idOf s < id) : (w.made id c).Objects := by
  refine ⟨rfl, rfl, fun s hs => ?_, fun s hs => ?_, fun s hs => ?_, fun s s' hss' hs' => ?_⟩
  · rcases Nat.lt_succ_iff_lt_or_eq.mp hs with hs | rfl
    · simpa [World.made, Function.update_of_ne (Nat.ne_of_lt hs)] using h.snapshot s hs
    · simp [World.made]
  · rcases Nat.lt_succ_iff_lt_or_eq.mp hs with hs | rfl
    · simpa [World.made, Function.update_of_ne (Nat.ne_of_lt hs)] using h.callbacks s hs
    · simp [World.made]
  · rcases Nat.lt_succ_iff_lt_or_eq.mp hs with hs | rfl
    · rw [idOf_made id c hs, ← h.collection s hs]
      simp [World.made, Function.update_of_ne (Nat.ne_of_lt hs)]
    · rw [idOf_made_self]
      simpa [World.made] using hcid
  · rcases Nat.lt_succ_iff_lt_or_eq.mp hs' with hs' | rfl
    · rw [idOf_made id c (by omega), idOf_made id c hs']
      exact h.ids s s' hss' hs'
    · rw [idOf_made id c hss', idOf_made_self]
      exact hgt s hss'

/-- **A new snapshot is in the books with one reference.** -/
theorem Counts.made {f : Nat → Nat} (hc : Counts random w f) (hrow : id ∈ w.store.collectionCommit)
    (hcol : w.store.idCollections[id]? = some c) (hgt : ∀ s, s < w.nextSnapshot → w.idOf s < id) :
    Counts random (w.made id c) (Function.update f w.nextSnapshot 1) := by
  have hne : ∀ s, s < w.nextSnapshot → w.idOf s ≠ id := fun s hs => Int.ne_of_lt (hgt s hs)
  refine ⟨fun s hs => ?_, fun s hs hpos => ?_, fun s hs hzero => ?_, fun k hk => ?_,
    fun k hlow hhigh hk => ?_, hc.commitRow, fun s hs => ?_⟩
  · rcases Nat.lt_succ_iff_lt_or_eq.mp hs with hs | rfl
    · simpa [World.made, Function.update_of_ne (Nat.ne_of_lt hs)] using hc.refcnt s hs
    · simp [World.made]
  · rcases Nat.lt_succ_iff_lt_or_eq.mp hs with hs | rfl
    · rw [Function.update_of_ne (Nat.ne_of_lt hs)] at hpos
      obtain ⟨h₁, h₂, h₃, h₄, h₅, h₆, h₇, h₈⟩ := hc.kept s hs hpos
      have hother := idOf_made id c hs
      refine ⟨hother ▸ h₁, hother ▸ h₂, ?_, ?_, ?_, ?_, ?_, ?_⟩
      · rw [hother]
        simpa only [World.made, getElem?_insert_eq, if_neg (hne s hs)] using h₃
      · rw [hother]
        simpa only [World.made, getElem?_insert_eq, if_neg (hne s hs)] using h₄
      all_goals
        simp only [World.made, Function.update_of_ne (Nat.ne_of_lt hs)]
        assumption
    · have hself := idOf_made_self w id c
      refine ⟨?_, ?_, ?_, ?_, ?_, ?_, ?_, ?_⟩
      · rw [hself]
        exact hrow
      · rw [hself]
        exact mem_iff_exists.mpr ⟨c, hcol⟩
      · rw [hself]
        simp only [World.made, getElem?_insert_eq, if_true]
      · rw [hself]
        simp only [World.made, getElem?_insert_eq, if_true]
      all_goals simp only [World.made, Function.update_self]
  · rcases Nat.lt_succ_iff_lt_or_eq.mp hs with hs | rfl
    · rw [Function.update_of_ne (Nat.ne_of_lt hs)] at hzero
      obtain ⟨h₁, h₂, h₃, h₄⟩ := hc.removed s hs hzero
      rw [not_mem_iff] at h₃ h₄
      rw [idOf_made id c hs]
      refine ⟨h₁, h₂, ?_, ?_⟩ <;> rw [not_mem_iff] <;>
        simp only [World.made, getElem?_insert_eq, if_neg (hne s hs), h₃, h₄]
    · simp at hzero
  · have hk' : ∀ s, s < w.nextSnapshot → w.idOf s ≠ k := by
      intro s hs
      rw [← idOf_made id c hs]
      exact hk s (Nat.lt_succ_of_lt hs)
    have hkid : k ≠ id := by
      intro heq
      exact hk w.nextSnapshot (Nat.lt_succ_self _) (by rw [idOf_made_self, heq])
    obtain ⟨h₁, h₂⟩ := hc.uncached k hk'
    simp only [World.made, getElem?_insert_eq, if_neg hkid, h₁, h₂, and_self]
  · refine hc.rows k hlow hhigh fun s hs => ?_
    rw [← idOf_made id c hs]
    exact hk s (Nat.lt_succ_of_lt hs)
  · rcases Nat.lt_succ_iff_lt_or_eq.mp hs with hs | rfl
    · simpa [World.made, Function.update_of_ne (Nat.ne_of_lt hs)] using hc.rowCounts s hs
    · simp [World.made]

end

/-- What `Add` makes of the window before it looks at the number of versions. -/
def insertActive (w : World) (id : Int) (c : Collection) : World :=
  { w.made id c with
    minId := if w.minId > id then id else w.minId
    maxId := if w.maxId < id then id else w.maxId
    active := w.active.insert id (some w.nextSnapshot) }

section

variable {random : Nat} {w : World} {id : Int} {c : Collection}

theorem Window.lt_of_mem (h : w.Window) (hgt : ∀ s, s < w.nextSnapshot → w.idOf s < id) {k : Int}
    (hk : k ∈ w.active) : k < id := by
  obtain ⟨o, ho⟩ := mem_iff_exists.mp hk
  obtain ⟨s, -, hs, rfl⟩ := h.active k o ho
  exact hgt s hs

theorem Window.not_mem_active (h : w.Window) (hgt : ∀ s, s < w.nextSnapshot → w.idOf s < id) :
    id ∉ w.active :=
  fun hmem => absurd (h.lt_of_mem hgt hmem) (Int.lt_irrefl id)

theorem mem_insertActive (k : Int) : k ∈ (w.insertActive id c).active ↔ k = id ∨ k ∈ w.active := by
  show k ∈ w.active.insert id (some w.nextSnapshot) ↔ _
  rw [ExtTreeMap.mem_insert, Std.compare_eq_iff_eq, @eq_comm Int id k]

/-- The new id is above all others, so it is the least one only where it is the only one. -/
theorem Window.minId_insertActive (h : w.Window) (hmax : id ≤ idMax)
    (hgt : ∀ s, s < w.nextSnapshot → w.idOf s < id) :
    (w.active.size = 0 ∧ (w.insertActive id c).minId = id) ∨
      (w.active.size ≠ 0 ∧ (w.insertActive id c).minId = w.minId) := by
  by_cases hsize : w.active.size = 0
  · obtain ⟨-, hmin⟩ := h.idle hsize
    refine .inl ⟨hsize, ?_⟩
    show (if w.minId > id then id else w.minId) = id
    split <;> omega
  · have := h.lt_of_mem hgt (h.minId_mem hsize)
    refine .inr ⟨hsize, ?_⟩
    exact if_neg (by omega)

theorem Window.insertActive (h : w.Window) (hmax : id ≤ idMax)
    (hgt : ∀ s, s < w.nextSnapshot → w.idOf s < id) : (w.insertActive id c).Window := by
  have hidOf : ∀ s, s < w.nextSnapshot → (w.insertActive id c).idOf s = w.idOf s :=
    fun s hs => idOf_made id c hs
  have hself : (w.insertActive id c).idOf w.nextSnapshot = id :=
    idOf_made_self w id c
  have hmin := h.minId_insertActive (c := c) hmax hgt
  have hmaxId : (w.insertActive id c).maxId = if w.maxId < id then id else w.maxId := rfl
  constructor
  · exact h.versions
  · exact h.running
  · intro k o hk
    have hk' : (w.active.insert id (some w.nextSnapshot))[k]? = some o := hk
    rw [getElem?_insert_eq] at hk'
    split at hk'
    · rename_i heq
      cases hk'
      exact ⟨w.nextSnapshot, rfl, Nat.lt_succ_self _, hself.trans heq.symm⟩
    · obtain ⟨s, rfl, hs, hsid⟩ := h.active k o hk'
      exact ⟨s, rfl, Nat.lt_succ_of_lt hs, (hidOf s hs).trans hsid⟩
  · intro o ho
    obtain ⟨s, rfl, hs⟩ := h.toRelease o ho
    exact ⟨s, rfl, Nat.lt_succ_of_lt hs⟩
  · exact fun s hs => Nat.lt_succ_of_lt (h.handles s hs)
  · intro k hk
    rcases hmin with ⟨hsize, hmin⟩ | ⟨hsize, hmin⟩ <;> rw [hmin]
    · rcases (mem_insertActive k).mp hk with rfl | hk
      · exact Int.le_refl _
      · rw [ExtTreeMap.eq_empty_iff_size_eq_zero.mpr hsize] at hk
        exact absurd hk ExtTreeMap.not_mem_empty
    · rcases (mem_insertActive k).mp hk with rfl | hk
      · exact Int.le_of_lt (h.lt_of_mem hgt (h.minId_mem hsize))
      · exact h.minId_le k hk
  · intro _
    rw [mem_insertActive]
    rcases hmin with ⟨-, hmin⟩ | ⟨hsize, hmin⟩ <;> rw [hmin]
    · exact .inl rfl
    · exact .inr (h.minId_mem hsize)
  · intro hsize
    have hempty := ExtTreeMap.eq_empty_iff_size_eq_zero.mpr hsize
    have := (mem_insertActive (w := w) (c := c) id).mpr (.inl rfl)
    rw [hempty] at this
    exact absurd this ExtTreeMap.not_mem_empty
  · intro s hs
    rw [hmaxId]
    rcases Nat.lt_succ_iff_lt_or_eq.mp hs with hs | rfl
    · rw [hidOf s hs]
      have := h.le_maxId s hs
      split <;> omega
    · rw [hself]
      split <;> omega
  · rw [hmaxId]
    split
    · exact .inr ⟨w.nextSnapshot, Nat.lt_succ_self _, hself.symm⟩
    · rcases h.maxId_eq with heq | ⟨s, hs, heq⟩
      · exact .inl heq
      · exact .inr ⟨s, Nat.lt_succ_of_lt hs, heq.trans (hidOf s hs).symm⟩

theorem Inv.insertActive (h : Inv random w) (hmax : id ≤ idMax)
    (hrow : id ∈ w.store.collectionCommit) (hcol : w.store.idCollections[id]? = some c)
    (hcid : c.id = id) (hgt : ∀ s, s < w.nextSnapshot → w.idOf s < id) :
    Inv random (w.insertActive id c) := by
  let active := w.active.insert id (some w.nextSnapshot)
  let minId := if w.minId > id then id else w.minId
  let maxId := if w.maxId < id then id else w.maxId
  refine ⟨(h.objects.made hcid hgt).withWindow active w.toRelease minId maxId w.numVersions w.done
    w.handles, h.window.insertActive hmax hgt, Counts.congr ((h.counts.made hrow hcol hgt).withWindow
    active w.toRelease minId maxId w.numVersions w.done w.handles) fun s hs => ?_⟩
  show _ = (if active[(w.made id c).idOf s]? = some (some s) then 1 else 0) +
    w.toRelease.count (some s) + w.handles.count s
  rcases Nat.lt_succ_iff_lt_or_eq.mp hs with hs | rfl
  · rw [Function.update_of_ne (Nat.ne_of_lt hs), idOf_made id c hs, getElem?_insert_eq,
      if_neg (Int.ne_of_lt (hgt s hs)), holds]
  · have hrel : some w.nextSnapshot ∉ w.toRelease := by
      intro hmem
      obtain ⟨s, hs, hlt⟩ := h.window.toRelease _ hmem
      cases hs
      exact Nat.lt_irrefl _ hlt
    have hhandles : w.nextSnapshot ∉ w.handles :=
      fun hmem => Nat.lt_irrefl _ (h.window.handles _ hmem)
    rw [Function.update_self, idOf_made_self, getElem?_insert_eq, if_pos rfl, if_pos rfl,
      List.count_eq_zero.mpr hrel, List.count_eq_zero.mpr hhandles]

theorem snapshots_evict {w w' : World} (h : w.evict = some w') : w'.snapshots = w.snapshots := by
  unfold World.evict at h
  by_cases hsize : w.active.size ≤ w.numVersions
  · rw [if_pos hsize] at h
    cases h
    rfl
  · rw [if_neg hsize] at h
    obtain ⟨oldest, -, h⟩ := Option.bind_eq_some_iff.mp h
    obtain ⟨first, -, h⟩ := Option.bind_eq_some_iff.mp h
    cases h
    rfl

/-- **Eviction** moves the reference of the oldest snapshot from the map to the collector's
list. -/
theorem Inv.evict (h : Inv random w) : ∃ w', w.evict = some w' ∧ Inv random w' := by
  unfold World.evict
  by_cases hsize : w.active.size ≤ w.numVersions
  · exact ⟨w, if_pos hsize, h⟩
  have hversions := h.window.versions
  have hmem := h.window.minId_mem (by omega)
  obtain ⟨o, ho⟩ := mem_iff_exists.mp hmem
  obtain ⟨s, rfl, hs, hsid⟩ := h.window.active _ o ho
  have hrest : (w.active.erase w.minId).size ≠ 0 := by
    rw [ExtTreeMap.size_erase, if_pos (ExtTreeMap.mem_iff_contains.mp hmem)]
    omega
  obtain ⟨first, hfirst⟩ : ∃ first, (w.active.erase w.minId).minKey? = some first := by
    rw [← Option.isSome_iff_exists, ExtTreeMap.isSome_minKey?_iff_ne_empty]
    exact fun hempty => hrest (ExtTreeMap.eq_empty_iff_size_eq_zero.mp hempty)
  obtain ⟨hfmem, hfle⟩ := ExtTreeMap.minKey?_eq_some_iff_mem_and_forall.mp hfirst
  rw [ExtTreeMap.minKey?_eq_head?_keys] at hfirst
  let active := w.active.erase w.minId
  let toRelease := w.toRelease ++ [some s]
  refine ⟨w.withWindow active toRelease first w.maxId w.numVersions w.done w.handles, ?_,
    h.objects.withWindow active toRelease first w.maxId w.numVersions w.done w.handles, ?_, ?_⟩
  · rw [if_neg hsize]
    simp only [ho, hfirst, Option.bind_eq_bind, Option.bind_some, Option.pure_def, withWindow,
      active, toRelease]
  · obtain ⟨h₁, h₂, h₃, h₄, h₅, -, -, -, h₉, h₁₀⟩ := h.window
    refine ⟨h₁, h₂, fun id o hid => ?_, fun o ho => ?_, h₅, fun id hid => ?_, fun _ => hfmem,
      fun hzero => absurd hzero hrest, h₉, h₁₀⟩
    · have hid' : (w.active.erase w.minId)[id]? = some o := hid
      rw [getElem?_erase_eq] at hid'
      split at hid'
      · cases hid'
      · exact h₃ id o hid'
    · rcases List.mem_append.mp ho with ho | ho
      · exact h₄ o ho
      · rw [List.mem_singleton] at ho
        exact ⟨s, ho, hs⟩
    · exact LawfulOrderOrd.isLE_compare first id |>.mp (hfle id hid)
  · refine Counts.congr (h.counts.withWindow active toRelease first w.maxId w.numVersions w.done
      w.handles) fun s' hs' => ?_
    show w.holds s' = (if active[w.idOf s']? = some (some s') then 1 else 0) +
      toRelease.count (some s') + w.handles.count s'
    rw [holds, getElem?_erase_eq, List.count_append]
    by_cases heq : s' = s
    · rw [heq, hsid, if_pos ho, if_pos rfl, if_neg (by simp), List.count_singleton_self]
      omega
    · have hne := h.objects.idOf_ne hs hs' heq
      rw [hsid] at hne
      have hcount : [some s].count (some s') = 0 := by
        rw [List.count_eq_zero, List.mem_singleton]
        exact fun hs => heq (Option.some_inj.mp hs)
      rw [if_neg hne, hcount]
      rfl

end

/-- **A snapshot is added.** -/
theorem Inv.add {stale : Int → String} {random : Nat} {w : World} (h : Inv random w) {id : Int}
    (hlow : idMin ≤ id) (hmax : id ≤ idMax) (hrow : id ∈ w.store.collectionCommit)
    (hgt : ∀ s, s < w.nextSnapshot → w.idOf s < id) :
    ∃ w', w.move stale (.add id) = some w' ∧ Inv random w' ∧
      ∀ s, (w'.snapshots s).refcnt ≤ max 1 (w.snapshots s).refcnt := by
  have hguard : ¬(w.active.size > 0 ∧ id < w.maxId) := by
    rintro ⟨-, hlt⟩
    rcases h.window.maxId_eq with heq | ⟨s, hs, heq⟩
    · omega
    · have := hgt s hs
      omega
  obtain ⟨c, w₁, hcol, hcid, hnew, hmade, hdone⟩ :=
    newSnapshot_eq h hrow fun s hs => Int.ne_of_lt (hgt s hs)
  obtain ⟨w', hevict, hinv⟩ := (h.insertActive hmax hrow hcol hcid hgt).evict
  refine ⟨w', ?_, hinv, fun s => ?_⟩
  rotate_left
  · rw [snapshots_evict hevict]
    show (Function.update w.snapshots w.nextSnapshot _ s).refcnt ≤ _
    rw [Function.update_apply]
    split
    · exact Nat.le_max_left 1 _
    · exact Nat.le_max_right 1 _
  have hmem : id ∉ (w.made id c).active := h.window.not_mem_active hgt
  have hadd : w.add id = some (true, w') := by
    simp only [World.add, if_neg hguard, hnew, Option.bind_eq_bind, Option.bind_some, hdone,
      h.window.running, Bool.false_eq_true, if_false, hmade, if_neg hmem]
    rw [World.insertActive] at hevict
    exact congrArg (Option.bind · fun w => some (true, w)) hevict
  simp only [World.move, hadd, Option.bind_eq_bind, Option.bind_some, Option.pure_def]

/-! ## Whole runs -/

theorem Inv.of_init (random : Nat) {numVersions : Nat} (hversions : 1 ≤ numVersions) :
    Inv random (init random numVersions) := by
  have hnone : ∀ {s : Nat}, s < (init random numVersions).nextSnapshot → False :=
    fun hs => Nat.not_lt_zero _ hs
  refine ⟨⟨rfl, rfl, fun s hs => (hnone hs).elim, fun s hs => (hnone hs).elim,
    fun s hs => (hnone hs).elim, fun s s' _ hs => (hnone hs).elim⟩, ?_, ?_⟩
  · refine ⟨hversions, rfl, fun id o ho => ?_, fun o ho => ?_, fun s hs => ?_, fun id hid => ?_,
      fun hsize => ?_, fun _ => ⟨rfl, rfl⟩, fun s hs => (hnone hs).elim, .inl rfl⟩
    · simp [init] at ho
    · simp [init] at ho
    · simp [init] at hs
    · exact absurd hid ExtTreeMap.not_mem_empty
    · exact absurd ExtTreeMap.size_empty hsize
  · refine ⟨fun s hs => (hnone hs).elim, fun s hs => (hnone hs).elim, fun s hs => (hnone hs).elim,
      fun id _ => by simp [init, ResourceHolder.new], fun id hlow hhigh _ => ?_, fun id c hrow => ?_,
      fun s hs => (hnone hs).elim⟩
    · obtain ⟨hcommit, hcol⟩ := Store.getElem?_fill random id
      rw [if_pos ⟨hlow, hhigh⟩] at hcommit
      obtain ⟨c, hc, -⟩ := hcol ⟨hlow, hhigh⟩
      exact ⟨mem_iff_exists.mpr ⟨_, hcommit⟩, mem_iff_exists.mpr ⟨c, hc⟩⟩
    · obtain ⟨hcommit, hcol⟩ := Store.getElem?_fill random id
      have hrow' : (Store.fill random).collectionCommit[id]? = some c := hrow
      rw [hcommit] at hrow'
      split at hrow'
      · rename_i hrange
        cases hrow'
        exact ⟨rfl, hcol hrange⟩
      · cases hrow'

theorem Objects.getID_eq {w : World} (h : w.Objects) {s : Nat} (hs : s < w.nextSnapshot) :
    w.getID s = w.idOf s := by
  rw [getID, h.snapshot s hs, idOf]

/-! ### Counts are in range -/

theorem snapshots_iterate {f : World → World} (h : ∀ w, (f w).snapshots = w.snapshots) (n : Nat) :
    ∀ w, (f^[n] w).snapshots = w.snapshots := by
  induction n with
  | zero => exact fun _ => rfl
  | succ n ih =>
    intro w
    rw [Function.iterate_succ_apply, ih, h]

/-- Dropping a reference on a snapshot raises the count of none. -/
theorem refcnt_unRefSnapshot_le (stale : Int → String) (s s' : Nat) (w : World) :
    ((w.unRefSnapshot stale s).snapshots s').refcnt ≤ (w.snapshots s').refcnt := by
  have hall : ∀ w : World, (w.unRefAll stale s).snapshots = w.snapshots := by
    intro w
    refine (snapshots_iterate (fun _ => ?_) _ _).trans ((snapshots_iterate (fun _ => ?_) _ _).trans ?_) <;> rfl
  have hlast : (w.unRefSnapshot stale s).snapshots =
      Function.update w.snapshots s (w.snapshots s).unRef.1 := snapshots_iterate hall _ _
  rw [hlast, Function.update_apply]
  split
  · rename_i heq
    rw [heq, Counted.unRef]
    split
    · exact Nat.le_refl _
    · exact Nat.sub_le _ 1
  · exact Nat.le_refl _

theorem refcnt_unRefEach_le {stale : Int → String} (s' : Nat) : ∀ (sss : List (Option Nat)) {w w' : World},
    unRefEach stale sss w = some w' → (w'.snapshots s').refcnt ≤ (w.snapshots s').refcnt := by
  intro sss
  induction sss with
  | nil =>
    intro w w' h
    cases h
    exact Nat.le_refl _
  | cons o sss ih =>
    intro w w' h
    cases o with
    | none => cases h
    | some s => exact Nat.le_trans (ih h) (refcnt_unRefSnapshot_le stale s s' w)

theorem one_le_intMax : 1 ≤ intMax := by decide

theorem Inv.intCounts {random : Nat} {w : World} (h : Inv random w)
    (hsnapshots : ∀ s, (w.snapshots s).refcnt ≤ intMax) : w.IntCounts := by
  refine ⟨fun s _ => hsnapshots s, fun k hk => ?_, fun k hk => ?_⟩
  · rw [h.objects.nextCommit] at hk
    exact Nat.le_trans (h.counts.rowCounts k hk).1 one_le_intMax
  · rw [h.objects.nextCollection] at hk
    exact Nat.le_trans (h.counts.rowCounts k hk).2 one_le_intMax

/-- A call that leaves the counts of the snapshots in range is a step. -/
theorem Inv.step_eq {stale : Int → String} {random : Nat} {w w' : World} {op : Op}
    (hmove : w.move stale op = some w') (h : Inv random w')
    (hint : ∀ s, (w'.snapshots s).refcnt ≤ intMax) : w.step stale op = some w' := by
  rw [World.step, hmove, Option.bind_eq_bind, Option.bind_some, if_pos (h.intCounts hint)]
  rfl

/-- **One step**: it has a result, keeps the books, and leaves the counts in range. -/
theorem Inv.step {stale : Int → String} {random : Nat} {w : World} {op : Op} (h : Inv random w)
    (hint : ∀ s, (w.snapshots s).refcnt ≤ intMax) (hop : w.Allowed op) (hfits : w.Fits op) :
    ∃ w', w.step stale op = some w' ∧ Inv random w' ∧ ∀ s, (w'.snapshots s).refcnt ≤ intMax := by
  suffices hmove : ∃ w', w.move stale op = some w' ∧ Inv random w' ∧
      ∀ s, (w'.snapshots s).refcnt ≤ intMax by
    obtain ⟨w', hmove, hinv, hint'⟩ := hmove
    exact ⟨w', hinv.step_eq hmove hint', hinv, hint'⟩
  cases op with
  | add id =>
    obtain ⟨hlow, hmax, hrow, hgt⟩ := hop
    obtain ⟨w', hmove, hinv, hle⟩ := @Inv.add stale _ _ h _ hlow hmax hrow fun s hs => by
      rw [← h.objects.getID_eq hs]
      exact hgt s hs
    exact ⟨w', hmove, hinv, fun s => Nat.le_trans (hle s) (Nat.max_le.mpr ⟨one_le_intMax, hint s⟩)⟩
  | getSnapshot id =>
    obtain ⟨s, hs, hlt, hmove, hinv⟩ := @Inv.getSnapshot stale _ _ h _ hop.2
    refine ⟨_, hmove, hinv, fun s' => ?_⟩
    show (Function.update w.snapshots s (w.snapshots s).ref s').refcnt ≤ intMax
    rw [Function.update_apply]
    split
    · -- There is room for one reference more.
      show (w.snapshots s).refcnt + 1 ≤ intMax
      rw [h.counts.refcnt s hlt]
      exact hfits s hs
    · exact hint s'
  | destroyHandle s =>
    exact ⟨_, rfl, h.destroyHandle hop, fun s' =>
      Nat.le_trans (refcnt_unRefSnapshot_le stale s s' _) (hint s')⟩
  | gcPass =>
    obtain ⟨w', hmove, hinv⟩ := @Inv.gcPass stale _ _ h
    refine ⟨w', hmove, hinv, fun s' => ?_⟩
    rw [World.gcPass, if_neg (by rw [h.window.running]; exact Bool.false_ne_true)] at hmove
    exact Nat.le_trans (refcnt_unRefEach_le s' _ hmove) (hint s')

instance (w : World) : (op : Op) → Decidable (w.Allowed op)
  | .add id => inferInstanceAs (Decidable (idMin ≤ id ∧ id ≤ idMax ∧
      id ∈ w.store.collectionCommit ∧ ∀ s, s < w.nextSnapshot → w.getID s < id))
  | .getSnapshot id => inferInstanceAs (Decidable (id ≠ 0 ∧ id ∈ w.active))
  | .destroyHandle s => inferInstanceAs (Decidable (s ∈ w.handles))
  | .gcPass => .isTrue trivial

instance (w : World) : (op : Op) → Decidable (w.Fits op)
  | .add _ => .isTrue trivial
  | .getSnapshot id =>
    match h : w.active[id]? with
    | some (some s) => decidable_of_iff (w.holds s < intMax)
        ⟨fun hlt s' hs' => by cases h.symm.trans hs'; exact hlt, fun hall => hall s h⟩
    | some none => .isTrue fun s hs => by cases h.symm.trans hs
    | none => .isTrue fun s hs => by cases h.symm.trans hs
  | .destroyHandle _ => .isTrue trivial
  | .gcPass => .isTrue trivial

theorem Inv.retained {random : Nat} {w : World} (h : Inv random w) : w.Retained random where
  gone id hlow hhigh hgone := by
    -- The rows of an id without a snapshot are there, and so are those of one that is held.
    by_contra hno
    have hrows : id ∈ w.store.collectionCommit ∧ id ∈ w.store.idCollections := by
      by_cases hmade : ∃ s, s < w.nextSnapshot ∧ w.idOf s = id
      · obtain ⟨s, hs, rfl⟩ := hmade
        have hkept := h.counts.kept s hs <| Nat.pos_of_ne_zero fun hzero =>
          hno ⟨s, hs, h.objects.getID_eq hs, h.window.released_iff.mpr hzero⟩
        exact ⟨hkept.commit, hkept.collection⟩
      · exact h.counts.rows id hlow hhigh fun s hs heq => hmade ⟨s, hs, heq⟩
    exact hgone.elim (· hrows.1) (· hrows.2)
  removed s hs hrel := by
    rw [h.objects.getID_eq hs]
    exact h.counts.removed s hs (h.window.released_iff.mp hrel)

/-- **Snapshots last as long as they are needed, and no longer**: in every run, whatever the order of the
steps and whatever `Release` finds behind its erased iterator. No handle is taken on a snapshot that is held
as often as its count, an `int`, can tell; then every step of the run has a result, and at its end the rows
that are gone are those of the released snapshots. -/
theorem run_retention (stale : Int → String) (random : Nat) {numVersions : Nat}
    (hversions : 1 ≤ numVersions) {ops : List Op}
    (hops : Along (step stale) (fun w op => w.Allowed op ∧ w.Fits op) (init random numVersions) ops) :
    ∃ w, runSteps (step stale) (init random numVersions) ops = some w ∧ w.Retained random := by
  obtain ⟨w, hrun, hinv, -⟩ := hops.run_inv
    (I := fun w => Inv random w ∧ ∀ s, (w.snapshots s).refcnt ≤ intMax)
    (fun _ _ hw hop => hw.1.step hw.2 hop.1 hop.2)
    ⟨Inv.of_init random hversions, fun _ => Nat.zero_le _⟩
  exact ⟨w, hrun, hinv.retained⟩

/-- One version is kept of three: the first outlives its eviction in a handle. -/
def threeVersions : List Op :=
  [.add 1, .getSnapshot 1, .add 2, .gcPass, .destroyHandle 0, .add 3, .gcPass]

theorem run_retention_threeVersions :
    ∃ w, runSteps (step fun _ => "c_1") (init 3 1) threeVersions = some w ∧ w.Retained 3 :=
  run_retention (fun _ => "c_1") 3 (by decide) (by decide +kernel)

/-! ### More handles than an `int` can count -/

theorem move_of_step {stale : Int → String} {w w' : World} {op : Op} (h : w.step stale op = some w') :
    w.move stale op = some w' ∧ w'.IntCounts := by
  obtain ⟨w₁, hmove, h⟩ := Option.bind_eq_some_iff.mp h
  obtain ⟨hint, heq⟩ := Option.ite_none_right_eq_some.mp h
  cases heq
  exact ⟨hmove, hint⟩

/-- So many handles on the snapshot of one id may be taken, and each raises its count by one, as far as the
run has a result. -/
theorem Inv.run_getSnapshot {stale : Int → String} {random s : Nat} {id : Int} (hid : id ≠ 0) :
    ∀ (n : Nat) {w : World}, Inv random w → w.active[id]? = some (some s) →
      Along (World.step stale) Allowed w (List.replicate n (.getSnapshot id)) ∧
        ∀ w', runSteps (World.step stale) w (List.replicate n (.getSnapshot id)) = some w' →
          (w.snapshots s).refcnt ≤ intMax → (w.snapshots s).refcnt + n ≤ intMax := by
  intro n
  induction n with
  | zero => exact fun _ _ => ⟨trivial, fun _ _ hle => hle⟩
  | succ n ih =>
    intro w h hs
    obtain ⟨s', hs', hlt, hmove, hinv⟩ := @Inv.getSnapshot stale _ _ h _ (mem_iff_exists.mpr ⟨_, hs⟩)
    obtain rfl : s = s' := Option.some_inj.mp (Option.some_inj.mp (hs.symm.trans hs'))
    obtain ⟨halong, hrun⟩ := ih hinv hs
    have hone : ∀ w₁, w.step stale (.getSnapshot id) = some w₁ →
        { w.updateSnapshot s Counted.ref with handles := s :: w.handles } = w₁ ∧ w₁.IntCounts :=
      fun w₁ hstep => ⟨Option.some_inj.mp (hmove.symm.trans (move_of_step hstep).1), (move_of_step hstep).2⟩
    rw [List.replicate_succ]
    refine ⟨Along.cons_iff.mpr ⟨⟨hid, mem_iff_exists.mpr ⟨_, hs⟩⟩, fun w₁ hstep => ?_⟩, fun w' hend _ => ?_⟩
    · obtain ⟨rfl, -⟩ := hone w₁ hstep
      exact halong
    · obtain ⟨w₁, hstep, hrest⟩ := Option.bind_eq_some_iff.mp hend
      obtain ⟨rfl, hint⟩ := hone w₁ hstep
      have hcount : (w.updateSnapshot s Counted.ref).snapshots s = (w.snapshots s).ref :=
        Function.update_self _ _ _
      have hle := hrun w' hrest (hint.1 s hlt)
      rw [hcount] at hle
      show (w.snapshots s).refcnt + (n + 1) ≤ intMax
      rw [Nat.add_comm n 1, ← Nat.add_assoc]
      exact hle

/-- One version, and handles on it until its count cannot be an `int` any more. -/
def manyHandles : List Op := .add 1 :: List.replicate intMax (.getSnapshot 1)

/-- **The last of these handles has no defined result**, although every step of the run may be taken. -/
theorem not_run_retention_manyHandles :
    Along (step fun _ => "c_1") Allowed (init 1 1) manyHandles ∧
      ¬ ∃ w, runSteps (step fun _ => "c_1") (init 1 1) manyHandles = some w ∧ w.Retained 1 := by
  have hallowed : (init 1 1).Allowed (.add 1) := by decide +kernel
  obtain ⟨w, hstep, hinv, -⟩ := @Inv.step (fun _ => "c_1") _ _ _ (Inv.of_init 1 (Nat.le_refl 1))
    (fun _ => Nat.zero_le _) hallowed trivial
  have hfacts : ((init 1 1).step (fun _ => "c_1") (.add 1)).map
      (fun w => (w.active[(1 : Int)]?, (w.snapshots 0).refcnt)) = some (some (some 0), 1) := by
    decide +kernel
  rw [hstep, Option.map_some, Option.some_inj, Prod.mk.injEq] at hfacts
  obtain ⟨hs, hcount⟩ := hfacts
  obtain ⟨halong, hrun⟩ := @Inv.run_getSnapshot (fun _ => "c_1") _ _ _ (by decide) intMax _ hinv hs
  refine ⟨Along.cons_iff.mpr ⟨hallowed, fun w₁ hone => ?_⟩, ?_⟩
  · cases hstep.symm.trans hone
    exact halong
  · rintro ⟨w', hend, -⟩
    rw [manyHandles, runSteps, hstep, Option.bind_some] at hend
    have hle := hrun w' hend (by rw [hcount]; exact one_le_intMax)
    rw [hcount] at hle
    exact absurd hle (by decide)

end World

end CxxLab.NewMetaLab
