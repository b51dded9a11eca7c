import CxxLab.NewMetaLab.Snapshots

/-!
# Calls of a `SnapshotsHolder` — what a refused `Add` leaves behind

`Op` and `Allowed` are the calls that keep the books. Here are all of them, with any ids, scoped or
not, copies of handles, and `NotifyDone`; counts can then be anything. What is left is that a commit
and its collection are treated alike (`Twins`): they are loaded, counted and removed together, and so
there is a collection wherever there is a commit.

`Add` makes the snapshot, which takes references, before it looks whether it is done or has the id.
Where it then refuses, nobody gives the references back.
-/

set_option autoImplicit false

namespace CxxLab.NewMetaLab

open Std CxxLab.Lib

/-- `RefCnt` of the resource of an id; one that is not loaded has none. -/
def ResourceHolder.refCnt {α : Type} (h : ResourceHolder α) (id : Int) : Nat :=
  match h.idMap[id]? with
  | some k => (h.objects k).refcnt
  | none => 0

namespace World

/-! ## All calls -/

/-- `ScopedSnapshotT(ss, scoped)`. -/
def handle (w : World) (isScoped : Bool) : Option Nat → Option (Option Nat × World)
  | none => if isScoped then none else some (none, w)
  | some s => some (some s, if isScoped then w.updateSnapshot s Counted.ref else w)

/-- `SnapshotsHolder::GetSnapshot`. -/
def getSnapshotWith (w : World) (id : Int) (isScoped : Bool) : Option (Option Nat × World) :=
  if id = 0 ∨ id = w.maxId then
    match w.active[id]? with
    | some ss => w.handle isScoped ss
    | none => { w with active := w.active.insert id none }.handle isScoped none
  else if id < w.minId ∨ id > w.maxId then some (none, w)
  else
    match w.active[id]? with
    | none => some (none, w)
    | some ss => w.handle isScoped ss

/-- For a scoped handle it is the call of the other runs. -/
theorem getSnapshotWith_true (w : World) (id : Int) :
    w.getSnapshotWith id true = w.getSnapshot id := by
  have hhandle : ∀ (w : World) ss, w.handle true ss = w.scopedHandle ss := by
    intro w ss
    cases ss <;> rfl
  unfold getSnapshotWith getSnapshot
  split
  · cases w.active[id]? with
    | none => exact hhandle _ none
    | some ss => exact hhandle w ss
  · split
    · rfl
    · cases w.active[id]? with
      | none => rfl
      | some ss => exact hhandle w ss

inductive Call where
  | add (id : Int)
  | getSnapshot (id : Int) (isScoped : Bool)
  /-- Copy one of the scoped handles on a snapshot. -/
  | copyHandle (s : Nat)
  /-- Assign something else to it. -/
  | overwriteHandle (s : Nat)
  | destroyHandle (s : Nat)
  | gcPass
  | notifyDone

/-- A call. Copies and assignments are the compiler's, and count nothing. -/
def call (stale : Int → String) (w : World) : Call → Option World
  | .add id => (w.add id).map Prod.snd
  | .getSnapshot id isScoped => do
    match ← w.getSnapshotWith id isScoped with
    | (some s, w) => return if isScoped then { w with handles := s :: w.handles } else w
    | (none, w) => return w
  | .copyHandle s => if s ∈ w.handles then some { w with handles := s :: w.handles } else none
  | .overwriteHandle s =>
    if s ∈ w.handles then some { w with handles := w.handles.erase s } else none
  | .destroyHandle s =>
    if s ∈ w.handles then
      some ({ w with handles := w.handles.erase s }.unRefSnapshot stale s)
    else none
  | .gcPass => w.gcPass stale
  | .notifyDone => some { w with done := true }

/-! ## A commit and its collection -/

/-- A commit and a collection that are counted alike. -/
structure Twins (o : Counted CollectionCommit) (o' : Counted Collection) : Prop where
  collectionId : o.value.collectionId = o.value.id
  id : o'.value.id = o.value.id
  refcnt : o'.refcnt = o.refcnt
  callbacks : o.callbacks = 1
  callbacks' : o'.callbacks = 1

/-- **What every call keeps** of what the holder works on. -/
structure Sound (w : World) : Prop where
  next : w.collections.next = w.commits.next
  cache : ∀ id : Int, w.collections.idMap[id]? = w.commits.idMap[id]?
  cached : ∀ (id : Int) k, w.commits.idMap[id]? = some k →
    k < w.commits.next ∧ (w.commits.objects k).value.id = id ∧ 1 ≤ id
  twins : ∀ k, k < w.commits.next → Twins (w.commits.objects k) (w.collections.objects k)
  row : ∀ (id : Int) c, w.store.collectionCommit[id]? = some c →
    c = ⟨id, id⟩ ∧ 1 ≤ id ∧ ∃ col, w.store.idCollections[id]? = some col ∧ col.id = id
  snapshot : ∀ s, s < w.nextSnapshot → ∃ k, k < w.commits.next ∧ (w.snapshots s).value = ⟨k, k⟩

/-- The snapshots that are somewhere were made. -/
structure Bounded (w : World) : Prop where
  active : ∀ (id : Int) s, w.active[id]? = some (some s) → s < w.nextSnapshot
  toRelease : ∀ s, some s ∈ w.toRelease → s < w.nextSnapshot
  handles : ∀ s, s ∈ w.handles → s < w.nextSnapshot

/-- Objects stay what they are: only counts change. -/
structure Keeps (w w' : World) : Prop where
  nextSnapshot : w.nextSnapshot ≤ w'.nextSnapshot
  nextCommit : w.commits.next ≤ w'.commits.next
  snapshot : ∀ s, s < w.nextSnapshot → (w'.snapshots s).value = (w.snapshots s).value
  commit : ∀ k, k < w.commits.next → (w'.commits.objects k).value = (w.commits.objects k).value

theorem Keeps.refl (w : World) : Keeps w w :=
  ⟨Nat.le_refl _, Nat.le_refl _, fun _ _ => rfl, fun _ _ => rfl⟩

theorem Keeps.trans {w w' w'' : World} (h : Keeps w w') (h' : Keeps w' w'') : Keeps w w'' :=
  ⟨Nat.le_trans h.nextSnapshot h'.nextSnapshot, Nat.le_trans h.nextCommit h'.nextCommit,
    fun s hs => (h'.snapshot s (Nat.lt_of_lt_of_le hs h.nextSnapshot)).trans (h.snapshot s hs),
    fun k hk => (h'.commit k (Nat.lt_of_lt_of_le hk h.nextCommit)).trans (h.commit k hk)⟩

/-- What is not about objects is as it was. -/
structure SameWindow (w w' : World) : Prop where
  active : w'.active = w.active
  toRelease : w'.toRelease = w.toRelease
  minId : w'.minId = w.minId
  maxId : w'.maxId = w.maxId
  numVersions : w'.numVersions = w.numVersions
  done : w'.done = w.done
  handles : w'.handles = w.handles

/-- The objects are the same. -/
theorem Sound.of_eq {w w' : World} (h : w.Sound) (hstore : w'.store = w.store)
    (hcolls : w'.collections = w.collections) (hcommits : w'.commits = w.commits)
    (hsnaps : w'.snapshots = w.snapshots) (hnext : w'.nextSnapshot = w.nextSnapshot) :
    w'.Sound ∧ Keeps w w' := by
  obtain ⟨h₁, h₂, h₃, h₄, h₅, h₆⟩ := h
  rw [← hcolls, ← hcommits] at h₁ h₂ h₄
  rw [← hcommits] at h₃ h₆
  rw [← hstore] at h₅
  rw [← hsnaps, ← hnext] at h₆
  exact ⟨⟨h₁, h₂, h₃, h₄, h₅, h₆⟩, Nat.le_of_eq hnext.symm, Nat.le_of_eq (by rw [hcommits]),
    fun s _ => by rw [hsnaps], fun k _ => by rw [hcommits]⟩

theorem Sound.of_eq_bounded {w w' : World} (h : w.Sound) (hstore : w'.store = w.store)
    (hcolls : w'.collections = w.collections) (hcommits : w'.commits = w.commits)
    (hsnaps : w'.snapshots = w.snapshots) (hnext : w'.nextSnapshot = w.nextSnapshot)
    (hb : w'.Bounded) : w'.Sound ∧ w'.Bounded ∧ Keeps w w' :=
  ⟨(h.of_eq hstore hcolls hcommits hsnaps hnext).1, hb,
    (h.of_eq hstore hcolls hcommits hsnaps hnext).2⟩

theorem Keeps.getID {w w' : World} (h : Keeps w w') (hw : w.Sound) {s : Nat}
    (hs : s < w.nextSnapshot) : w'.getID s = w.getID s := by
  obtain ⟨k, hk, hvalue⟩ := hw.snapshot s hs
  rw [World.getID, World.getID, h.snapshot s hs, hvalue, h.commit k hk]

/-! ### Making a snapshot -/

/-- The resources of an id come to the caches. -/
def load (w : World) (id : Int) (c : Collection) : World :=
  { w with
    commits :=
      { objects := Function.update w.commits.objects w.commits.next ⟨⟨id, id⟩, 0, 1⟩
        next := w.commits.next + 1
        idMap := w.commits.idMap.insert id w.commits.next }
    collections :=
      { objects := Function.update w.collections.objects w.commits.next ⟨c, 0, 1⟩
        next := w.commits.next + 1
        idMap := w.collections.idMap.insert id w.commits.next
        nameMap := w.collections.nameMap } }

/-- A new snapshot of cached resources, which are counted. -/
def attach (w : World) (k : Nat) : World :=
  { w with
    commits := w.commits.update k Counted.ref
    collections := { w.collections with
      toResourceHolder := w.collections.toResourceHolder.update k Counted.ref }
    snapshots := Function.update w.snapshots w.nextSnapshot ⟨⟨k, k⟩, 0, 0⟩
    nextSnapshot := w.nextSnapshot + 1 }

/-- **What the constructor of `Snapshot` does**, with the resources cached or loaded. -/
theorem newSnapshot_cases {w : World} (h : w.Sound) (id : Int) :
    (∃ k, w.commits.idMap[id]? = some k ∧ w.newSnapshot id = some (w.nextSnapshot, w.attach k)) ∨
    (∃ c, w.commits.idMap[id]? = none ∧ c.id = id ∧ 1 ≤ id ∧
      w.newSnapshot id = some (w.nextSnapshot, (w.load id c).attach w.commits.next)) ∨
    (id ∉ w.store.collectionCommit ∧ w.newSnapshot id = none) := by
  cases hcache : w.commits.idMap[id]? with
  | some k =>
    obtain ⟨hk, hid, -⟩ := h.cached id k hcache
    refine .inl ⟨k, rfl, ?_⟩
    have hcol : w.collections.idMap[(w.commits.objects k).value.collectionId]? = some k := by
      rw [(h.twins k hk).collectionId, hid, h.cache, hcache]
    simp [newSnapshot, ResourceHolder.getResource, hcache, hcol, attach]
  | none =>
    cases hrow : w.store.collectionCommit[id]? with
    | none =>
      refine .inr (.inr ⟨not_mem_iff.mpr hrow, ?_⟩)
      simp [newSnapshot, ResourceHolder.getResource, hcache, Store.getCollectionCommit, hrow]
    | some row =>
      obtain ⟨rfl, hpos, c, hc, hcid⟩ := h.row id row hrow
      have hload₁ := ResourceHolder.getResource_load CollectionCommit.id
        w.store.getCollectionCommit hcache hrow rfl
      have hload₂ := ResourceHolder.getResource_load Collection.id w.store.getCollection
        ((h.cache id).trans hcache) hc hcid
      rw [h.next] at hload₂
      refine .inr (.inl ⟨c, rfl, hcid, hpos, ?_⟩)
      simp [newSnapshot, hload₁, hload₂, attach, load]

theorem Sound.load {w : World} (h : w.Sound) {id : Int} {c : Collection} (hcid : c.id = id)
    (hpos : 1 ≤ id) : (w.load id c).Sound ∧ Keeps w (w.load id c) := by
  have hold : ∀ k, k < w.commits.next →
      (w.load id c).commits.objects k = w.commits.objects k ∧
      (w.load id c).collections.objects k = w.collections.objects k := fun k hk =>
    ⟨Function.update_of_ne (Nat.ne_of_lt hk) _ _, Function.update_of_ne (Nat.ne_of_lt hk) _ _⟩
  have hnew : (w.load id c).commits.objects w.commits.next = ⟨⟨id, id⟩, 0, 1⟩ ∧
      (w.load id c).collections.objects w.commits.next = ⟨c, 0, 1⟩ :=
    ⟨Function.update_self .., Function.update_self ..⟩
  refine ⟨⟨rfl, fun k => ?_, fun k ptr hk => ?_, fun k hk => ?_, h.row, fun s hs => ?_⟩,
    Nat.le_refl _, Nat.le_succ _, fun _ _ => rfl, fun k hk => by rw [(hold k hk).1]⟩
  · simp only [World.load, getElem?_insert_eq]
    rw [h.cache]
  · simp only [World.load, getElem?_insert_eq] at hk
    split at hk
    · rename_i heq
      cases hk
      rw [hnew.1]
      exact ⟨Nat.lt_succ_self _, heq.symm, heq ▸ hpos⟩
    · obtain ⟨hlt, hid, hpos⟩ := h.cached k ptr hk
      rw [(hold ptr hlt).1]
      exact ⟨Nat.lt_succ_of_lt hlt, hid, hpos⟩
  · rcases Nat.lt_succ_iff_lt_or_eq.mp hk with hk | rfl
    · rw [(hold k hk).1, (hold k hk).2]
      exact h.twins k hk
    · rw [hnew.1, hnew.2]
      exact ⟨rfl, hcid, rfl, rfl, rfl⟩
  · obtain ⟨k, hk, hvalue⟩ := h.snapshot s hs
    exact ⟨k, Nat.lt_succ_of_lt hk, hvalue⟩

theorem Sound.attach {w : World} (h : w.Sound) {k : Nat} (hk : k < w.commits.next) :
    (w.attach k).Sound ∧ Keeps w (w.attach k) := by
  have hvalue : ∀ k', ((w.attach k).commits.objects k').value = (w.commits.objects k').value := by
    intro k'
    simp only [World.attach, ResourceHolder.update, Function.update_apply]
    split
    · rename_i heq
      rw [heq]
      rfl
    · rfl
  have hold : ∀ s, s < w.nextSnapshot → (w.attach k).snapshots s = w.snapshots s := fun s hs =>
    Function.update_of_ne (Nat.ne_of_lt hs) _ _
  refine ⟨⟨h.next, h.cache, fun id ptr hid => ?_, fun k' hk' => ?_, h.row, fun s hs => ?_⟩,
    Nat.le_succ _, Nat.le_refl _, fun s hs => by rw [hold s hs], fun k' _ => hvalue k'⟩
  · rw [hvalue]
    exact h.cached id ptr hid
  · obtain ⟨hcol, hid, hcount, hcb, hcb'⟩ := h.twins k' hk'
    simp only [World.attach, ResourceHolder.update, Function.update_apply]
    split
    · rename_i heq
      subst heq
      exact ⟨hcol, hid, congrArg (· + 1) hcount, hcb, hcb'⟩
    · exact ⟨hcol, hid, hcount, hcb, hcb'⟩
  · rcases Nat.lt_succ_iff_lt_or_eq.mp hs with hs | rfl
    · rw [hold s hs]
      exact h.snapshot s hs
    · refine ⟨k, hk, ?_⟩
      simp [World.attach]

/-- The snapshot is new, and has the id it was made for. -/
theorem Sound.newSnapshot {w w' : World} (h : w.Sound) {id : Int} {s : Nat}
    (hrun : w.newSnapshot id = some (s, w')) : w'.Sound ∧ Keeps w w' ∧ SameWindow w w' ∧
      s = w.nextSnapshot ∧ w'.nextSnapshot = w.nextSnapshot + 1 ∧ w'.getID s = id ∧ 1 ≤ id := by
  have hid : ∀ (w : World) k, (w.attach k).getID w.nextSnapshot = (w.commits.objects k).value.id := by
    intro w k
    simp only [World.getID, World.attach, Function.update_self, ResourceHolder.update]
    rfl
  rcases newSnapshot_cases h id with ⟨k, hcache, hnew⟩ | ⟨c, -, hcid, hpos, hnew⟩ | ⟨-, hnone⟩
  · cases hrun.symm.trans hnew
    obtain ⟨hk, hkid, hpos⟩ := h.cached id k hcache
    obtain ⟨hsound, hkeeps⟩ := h.attach hk
    exact ⟨hsound, hkeeps, ⟨rfl, rfl, rfl, rfl, rfl, rfl, rfl⟩, rfl, rfl, (hid w k).trans hkid, hpos⟩
  · cases hrun.symm.trans hnew
    obtain ⟨hloaded, hkeeps⟩ := h.load hcid hpos
    obtain ⟨hsound, hkeeps'⟩ := hloaded.attach (Nat.lt_succ_self w.commits.next)
    refine ⟨hsound, hkeeps.trans hkeeps', ⟨rfl, rfl, rfl, rfl, rfl, rfl, rfl⟩, rfl, rfl, ?_, hpos⟩
    refine (hid (w.load id c) w.commits.next).trans ?_
    simp [World.load]
  · rw [hnone] at hrun
    cases hrun

theorem Sound.updateSnapshot {w : World} (h : w.Sound) {s : Nat}
    {f : Counted Snapshot → Counted Snapshot}
    (hf : (f (w.snapshots s)).value = (w.snapshots s).value) :
    (w.updateSnapshot s f).Sound ∧ Keeps w (w.updateSnapshot s f) := by
  have hvalue : ∀ s', ((w.updateSnapshot s f).snapshots s').value = (w.snapshots s').value := by
    intro s'
    simp only [World.updateSnapshot, Function.update_apply]
    split
    · rename_i heq
      rw [heq, hf]
    · rfl
  exact ⟨⟨h.next, h.cache, h.cached, h.twins, h.row, fun s' hs' => hvalue s' ▸ h.snapshot s' hs'⟩,
    Nat.le_refl _, Nat.le_refl _, fun s' _ => hvalue s', fun _ _ => rfl⟩

/-! ### Dropping references -/

/-- One reference less on a commit and its collection. -/
def dropRef (w : World) (k : Nat) : World :=
  { w with
    commits := w.commits.update k fun o => { o with refcnt := o.refcnt - 1 }
    collections := { w.collections with
      toResourceHolder := w.collections.toResourceHolder.update k fun o =>
        { o with refcnt := o.refcnt - 1 } } }

/-- The rows of an id go, from the store and from the caches. -/
def removeRows (stale : Int → String) (w : World) (id : Int) : World :=
  { w with
    store := (w.store.removeCollectionCommit id).removeCollection id
    commits := w.commits.release id
    collections := w.collections.release (stale id) id }

/-- **`UnRefAll`**: the commit and the collection lose their last references together. -/
theorem unRefAll_cases {stale : Int → String} {w : World} (h : w.Sound) {s k : Nat}
    (hs : (w.snapshots s).value = ⟨k, k⟩) (hk : k < w.commits.next) :
    w.unRefAll stale s = w ∨ w.unRefAll stale s = w.dropRef k ∨
      w.unRefAll stale s = (w.dropRef k).removeRows stale (w.commits.objects k).value.id := by
  obtain ⟨-, hid, hcount, hcb, hcb'⟩ := h.twins k hk
  rcases hrefs : (w.commits.objects k).refcnt with _ | _ | n <;> rw [hrefs] at hcount
  · left
    simp [unRefAll, hs, unRefCommit, Counted.unRef, hrefs, unRefCollection, hcount,
      ResourceHolder.update]
  · right; right
    simp [unRefAll, hs, unRefCommit, Counted.unRef, hrefs, unRefCollection, hcount, hcb, hcb',
      ResourceHolder.update, onNoRefCommit, onNoRefCollection, dropRef, removeRows, hid,
      ResourceHolder.release]
  · right; left
    simp [unRefAll, hs, unRefCommit, Counted.unRef, hrefs, unRefCollection, hcount,
      ResourceHolder.update, dropRef]

theorem Sound.dropRef {w : World} (h : w.Sound) (k : Nat) :
    (w.dropRef k).Sound ∧ Keeps w (w.dropRef k) := by
  have hvalue : ∀ k', ((w.dropRef k).commits.objects k').value = (w.commits.objects k').value := by
    intro k'
    simp only [World.dropRef, ResourceHolder.update, Function.update_apply]
    split
    · rename_i heq
      rw [heq]
    · rfl
  refine ⟨⟨h.next, h.cache, fun id ptr hid => ?_, fun k' hk' => ?_, h.row, h.snapshot⟩,
    Nat.le_refl _, Nat.le_refl _, fun _ _ => rfl, fun k' _ => hvalue k'⟩
  · rw [hvalue]
    exact h.cached id ptr hid
  · obtain ⟨hcol, hid, hcount, hcb, hcb'⟩ := h.twins k' hk'
    simp only [World.dropRef, ResourceHolder.update, Function.update_apply]
    split
    · rename_i heq
      subst heq
      exact ⟨hcol, hid, congrArg (· - 1) hcount, hcb, hcb'⟩
    · exact ⟨hcol, hid, hcount, hcb, hcb'⟩

theorem Sound.removeRows {stale : Int → String} {w : World} (h : w.Sound) (id : Int) :
    (w.removeRows stale id).Sound ∧ Keeps w (w.removeRows stale id) := by
  have hobjects : (w.removeRows stale id).collections.objects = w.collections.objects :=
    CollectionsHolder.objects_release ..
  refine ⟨⟨?_, fun k => ?_, fun k ptr hk => ?_, fun k hk => ?_, fun k c hrow => ?_, h.snapshot⟩,
    Nat.le_refl _, Nat.le_refl _, fun _ _ => rfl, fun _ _ => rfl⟩
  · exact (CollectionsHolder.next_release ..).trans h.next
  · simp only [World.removeRows, CollectionsHolder.getElem?_release, ResourceHolder.release,
      getElem?_erase_eq, h.cache]
  · simp only [World.removeRows, ResourceHolder.release, getElem?_erase_eq] at hk
    split at hk
    · cases hk
    · exact h.cached k ptr hk
  · rw [hobjects]
    exact h.twins k hk
  · simp only [World.removeRows, Store.collectionCommit_removeCollection,
      Store.getElem?_removeCollectionCommit] at hrow
    split at hrow
    · cases hrow
    · rename_i hne
      obtain ⟨hc, hpos, col, hcol, hid⟩ := h.row k c hrow
      refine ⟨hc, hpos, col, ?_, hid⟩
      simp only [World.removeRows, Store.getElem?_removeCollection, if_neg hne]
      exact hcol

/-- **What dropping references keeps.** -/
structure Drops (w w' : World) : Prop where
  sound : w'.Sound
  keeps : Keeps w w'
  window : SameWindow w w'
  nextSnapshot : w'.nextSnapshot = w.nextSnapshot

theorem Drops.refl {w : World} (h : w.Sound) : Drops w w :=
  ⟨h, Keeps.refl w, ⟨rfl, rfl, rfl, rfl, rfl, rfl, rfl⟩, rfl⟩

theorem Drops.trans {w w' w'' : World} (h : Drops w w') (h' : Drops w' w'') : Drops w w'' :=
  ⟨h'.sound, h.keeps.trans h'.keeps,
    ⟨h'.window.active.trans h.window.active, h'.window.toRelease.trans h.window.toRelease,
      h'.window.minId.trans h.window.minId, h'.window.maxId.trans h.window.maxId,
      h'.window.numVersions.trans h.window.numVersions, h'.window.done.trans h.window.done,
      h'.window.handles.trans h.window.handles⟩, h'.nextSnapshot.trans h.nextSnapshot⟩

theorem Sound.unRefAll {stale : Int → String} {w : World} (h : w.Sound) {s : Nat}
    (hs : s < w.nextSnapshot) : Drops w (w.unRefAll stale s) := by
  obtain ⟨k, hk, hvalue⟩ := h.snapshot s hs
  obtain ⟨hdrop, hkeeps⟩ := h.dropRef k
  rcases @unRefAll_cases stale _ h _ _ hvalue hk with heq | heq | heq <;> rw [heq]
  · exact Drops.refl h
  · exact ⟨hdrop, hkeeps, ⟨rfl, rfl, rfl, rfl, rfl, rfl, rfl⟩, rfl⟩
  · obtain ⟨hsound, hkeeps'⟩ := @Sound.removeRows stale _ hdrop (w.commits.objects k).value.id
    exact ⟨hsound, hkeeps.trans hkeeps', ⟨rfl, rfl, rfl, rfl, rfl, rfl, rfl⟩, rfl⟩

/-- A snapshot is released as often as callbacks say. -/
theorem Sound.unRefSnapshot {stale : Int → String} {w : World} (h : w.Sound) {s : Nat}
    (hs : s < w.nextSnapshot) : Drops w (w.unRefSnapshot stale s) := by
  have hvalue : (w.snapshots s).unRef.1.value = (w.snapshots s).value := by
    rw [Counted.unRef]
    split <;> rfl
  obtain ⟨hsound, hkeeps⟩ := h.updateSnapshot (f := fun _ => (w.snapshots s).unRef.1) hvalue
  refine Function.Iterate.rec (Drops w)
    ⟨hsound, hkeeps, ⟨rfl, rfl, rfl, rfl, rfl, rfl, rfl⟩, rfl⟩ (fun w' hw' => ?_) _
  exact hw'.trans (hw'.sound.unRefAll (hw'.nextSnapshot ▸ hs))

theorem Sound.unRefEach {stale : Int → String} : ∀ {sss : List (Option Nat)} {w w' : World},
    w.Sound → (∀ s, some s ∈ sss → s < w.nextSnapshot) → unRefEach stale sss w = some w' →
    Drops w w' := by
  intro sss
  induction sss with
  | nil =>
    intro w w' h _ hrun
    cases hrun
    exact Drops.refl h
  | cons o sss ih =>
    intro w w' h hsss hrun
    cases o with
    | none => cases hrun
    | some s =>
      have hone := @Sound.unRefSnapshot stale _ h _ (hsss s List.mem_cons_self)
      refine hone.trans (ih hone.sound (fun s' hs' => ?_) hrun)
      rw [hone.nextSnapshot]
      exact hsss s' (List.mem_cons_of_mem _ hs')

/-! ## `Add` -/

/-- The four ways of `Add`. -/
theorem add_cases {w w' : World} {id : Int} {b : Bool} (h : w.add id = some (b, w')) :
    (0 < w.active.size ∧ id < w.maxId) ∧ b = false ∧ w' = w ∨
    ¬ (0 < w.active.size ∧ id < w.maxId) ∧ ∃ s w₁, w.newSnapshot id = some (s, w₁) ∧
      (w₁.done = true ∧ b = false ∧ w' = w₁ ∨
      w₁.done = false ∧ id ∈ w₁.active ∧ b = false ∧
        w' = w₁.updateSnapshot s (fun o => o.registerOnNoRefCB.ref) ∨
      w₁.done = false ∧ id ∉ w₁.active ∧ b = true ∧
        evict { w₁.updateSnapshot s fun o => o.registerOnNoRefCB.ref with
          minId := if w₁.minId > id then id else w₁.minId
          maxId := if w₁.maxId < id then id else w₁.maxId
          active := w₁.active.insert id (some s) } = some w') := by
  unfold add at h
  split at h
  · rename_i hold
    cases h
    exact .inl ⟨hold, rfl, rfl⟩
  · rename_i hnew
    refine .inr ⟨hnew, ?_⟩
    obtain ⟨⟨s, w₁⟩, hmade, h⟩ := Option.bind_eq_some_iff.mp h
    refine ⟨s, w₁, hmade, ?_⟩
    dsimp only at h
    split at h
    · rename_i hdone
      cases h
      exact .inl ⟨hdone, rfl, rfl⟩
    · rename_i hdone
      rw [Bool.not_eq_true] at hdone
      split at h
      · rename_i hmem
        cases h
        exact .inr (.inl ⟨hdone, hmem, rfl, rfl⟩)
      · rename_i hmem
        obtain ⟨w₂, hevict, h⟩ := Option.bind_eq_some_iff.mp h
        cases h
        exact .inr (.inr ⟨hdone, hmem, rfl, hevict⟩)

/-- The two ways its end goes. -/
theorem evict_cases {w w' : World} (h : w.evict = some w') :
    w.active.size ≤ w.numVersions ∧ w' = w ∨
    w.numVersions < w.active.size ∧ ∃ oldest first, w.active[w.minId]? = some oldest ∧
      (w.active.erase w.minId).keys.head? = some first ∧
      w' = { w with active := w.active.erase w.minId, minId := first,
                    toRelease := w.toRelease ++ [oldest] } := by
  unfold evict at h
  split at h
  · rename_i hfits
    cases h
    exact .inl ⟨hfits, rfl⟩
  · rename_i hmany
    obtain ⟨oldest, holdest, h⟩ := Option.bind_eq_some_iff.mp h
    obtain ⟨first, hfirst, h⟩ := Option.bind_eq_some_iff.mp h
    cases h
    exact .inr ⟨by omega, oldest, first, holdest, hfirst, rfl⟩

/-- The window of the holder behind an `Add` that returned true. -/
structure Inserted (w w' : World) (id : Int) (s : Nat) : Prop where
  maxId : w'.maxId = if w.maxId < id then id else w.maxId
  numVersions : w'.numVersions = w.numVersions
  done : w'.done = w.done
  handles : w'.handles = w.handles
  window :
    (w.active.insert id (some s)).size ≤ w.numVersions ∧
      w'.active = w.active.insert id (some s) ∧
      w'.minId = (if w.minId > id then id else w.minId) ∧ w'.toRelease = w.toRelease ∨
    w.numVersions < (w.active.insert id (some s)).size ∧ ∃ oldest first,
      (w.active.insert id (some s))[if w.minId > id then id else w.minId]? = some oldest ∧
      w'.active = (w.active.insert id (some s)).erase (if w.minId > id then id else w.minId) ∧
      w'.active.keys.head? = some first ∧ w'.minId = first ∧
      w'.toRelease = w.toRelease ++ [oldest]

/-- **`Add`**: what the holder works on is kept, and its window is as it was, for one of three
reasons, or has one id more. -/
theorem Sound.add {w w' : World} (h : w.Sound) {id : Int} {b : Bool}
    (hadd : w.add id = some (b, w')) : w'.Sound ∧ Keeps w w' ∧
      (b = false ∧ SameWindow w w' ∧
        (0 < w.active.size ∧ id < w.maxId ∨ w.done = true ∨ id ∈ w.active) ∨
      b = true ∧ ¬ (0 < w.active.size ∧ id < w.maxId) ∧ w.done = false ∧ id ∉ w.active ∧ 1 ≤ id ∧
        w.nextSnapshot < w'.nextSnapshot ∧ w'.getID w.nextSnapshot = id ∧
        Inserted w w' id w.nextSnapshot) := by
  have hsame : SameWindow w w := ⟨rfl, rfl, rfl, rfl, rfl, rfl, rfl⟩
  rcases add_cases hadd with ⟨hold, rfl, rfl⟩ | ⟨hnew, s, w₁, hmade, hrest⟩
  · exact ⟨h, Keeps.refl w', .inl ⟨rfl, hsame, .inl hold⟩⟩
  obtain ⟨hsound, hkeeps, hwin, rfl, hnext, hid, hpos⟩ := h.newSnapshot hmade
  obtain ⟨hsound', hkeeps'⟩ := @Sound.updateSnapshot _ hsound w.nextSnapshot
    (fun o => o.registerOnNoRefCB.ref) rfl
  rcases hrest with ⟨hdone, rfl, rfl⟩ | ⟨-, hmem, rfl, rfl⟩ | ⟨hdone, hmem, rfl, hevict⟩
  · exact ⟨hsound, hkeeps, .inl ⟨rfl, hwin, .inr (.inl (hwin.done ▸ hdone))⟩⟩
  · rw [hwin.active] at hmem
    obtain ⟨h₁, h₂, h₃, h₄, h₅, h₆, h₇⟩ := hwin
    exact ⟨hsound', hkeeps.trans hkeeps',
      .inl ⟨rfl, ⟨h₁, h₂, h₃, h₄, h₅, h₆, h₇⟩, .inr (.inr hmem)⟩⟩
  · have hlt : w.nextSnapshot < w₁.nextSnapshot := hnext ▸ Nat.lt_succ_self _
    have hgetID := (hkeeps'.getID hsound hlt).trans hid
    obtain ⟨h₁, h₂, h₃, h₄, h₅, h₆, h₇⟩ := hwin
    rw [h₆] at hdone
    rw [h₁] at hmem
    rw [h₁, h₃, h₄] at hevict
    rcases evict_cases hevict with ⟨hfits, rfl⟩ | ⟨hmany, oldest, first, holdest, hfirst, rfl⟩
    · obtain ⟨g₁, g₂, g₃, g₄, g₅, g₆⟩ := hsound'
      obtain ⟨k₁, k₂, k₃, k₄⟩ := hkeeps.trans hkeeps'
      exact ⟨⟨g₁, g₂, g₃, g₄, g₅, g₆⟩, ⟨k₁, k₂, k₃, k₄⟩, .inr ⟨rfl, hnew, hdone, hmem, hpos, hlt,
        hgetID, rfl, h₅, h₆, h₇, .inl ⟨h₅ ▸ hfits, rfl, rfl, h₂⟩⟩⟩
    · obtain ⟨g₁, g₂, g₃, g₄, g₅, g₆⟩ := hsound'
      obtain ⟨k₁, k₂, k₃, k₄⟩ := hkeeps.trans hkeeps'
      exact ⟨⟨g₁, g₂, g₃, g₄, g₅, g₆⟩, ⟨k₁, k₂, k₃, k₄⟩, .inr ⟨rfl, hnew, hdone, hmem, hpos, hlt,
        hgetID, rfl, h₅, h₆, h₇, .inr ⟨h₅ ▸ hmany, oldest, first, holdest, rfl, hfirst, rfl,
          congrArg (· ++ [oldest]) h₂⟩⟩⟩

/-! ## Runs -/

theorem Bounded.of_window {w w' : World} (h : w.Bounded) (hwin : SameWindow w w')
    (hnext : w.nextSnapshot ≤ w'.nextSnapshot) : w'.Bounded := by
  refine ⟨fun id s hs => ?_, fun s hs => ?_, fun s hs => ?_⟩
  · rw [hwin.active] at hs
    exact Nat.lt_of_lt_of_le (h.active id s hs) hnext
  · rw [hwin.toRelease] at hs
    exact Nat.lt_of_lt_of_le (h.toRelease s hs) hnext
  · rw [hwin.handles] at hs
    exact Nat.lt_of_lt_of_le (h.handles s hs) hnext

theorem Inserted.active_cases {w w' : World} {id : Int} {s : Nat} (h : Inserted w w' id s) {k : Int}
    {o : Option Nat} (ho : w'.active[k]? = some o) : k = id ∧ o = some s ∨ w.active[k]? = some o := by
  have hinsert : (w.active.insert id (some s))[k]? = some o := by
    rcases h.window with ⟨-, hactive, -⟩ | ⟨-, _, _, -, hactive, -⟩
    · rwa [← hactive]
    · rw [hactive] at ho
      exact (getElem?_of_erase ho).2
  exact getElem?_of_insert hinsert

theorem Bounded.inserted {w w' : World} (h : w.Bounded) {id : Int} {s : Nat}
    (hins : Inserted w w' id s) (hnext : w.nextSnapshot ≤ w'.nextSnapshot)
    (hs : s < w'.nextSnapshot) : w'.Bounded := by
  refine ⟨fun k s' hs' => ?_, fun s' hs' => ?_, fun s' hs' => ?_⟩
  · rcases hins.active_cases hs' with ⟨-, heq⟩ | hold
    · cases heq
      exact hs
    · exact Nat.lt_of_lt_of_le (h.active k s' hold) hnext
  · rcases hins.window with ⟨-, -, -, hrel⟩ | ⟨-, oldest, -, holdest, -, -, -, hrel⟩
    · rw [hrel] at hs'
      exact Nat.lt_of_lt_of_le (h.toRelease s' hs') hnext
    · rw [hrel, List.mem_append, List.mem_singleton] at hs'
      rcases hs' with hs' | rfl
      · exact Nat.lt_of_lt_of_le (h.toRelease s' hs') hnext
      · rcases getElem?_of_insert holdest with ⟨-, heq⟩ | hold
        · cases heq
          exact hs
        · exact Nat.lt_of_lt_of_le (h.active _ s' hold) hnext
  · rw [hins.handles] at hs'
    exact Nat.lt_of_lt_of_le (h.handles s' hs') hnext

/-- **What a lookup can do**: count the snapshot it finds, and put in a null entry. -/
theorem getSnapshotWith_cases {w w' : World} {id : Int} {isScoped : Bool} {r : Option Nat}
    (h : w.getSnapshotWith id isScoped = some (r, w')) :
    r = none ∧ w' = w ∨
    r = none ∧ (id = 0 ∨ id = w.maxId) ∧ id ∉ w.active ∧
      w' = { w with active := w.active.insert id none } ∨
    ∃ s, r = some s ∧ w.active[id]? = some (some s) ∧
      w' = if isScoped then w.updateSnapshot s Counted.ref else w := by
  have hhandle : ∀ {w w' : World} {o r}, w.handle isScoped o = some (r, w') →
      r = o ∧ (o = none ∧ w' = w ∨ ∃ s, o = some s ∧
        w' = if isScoped then w.updateSnapshot s Counted.ref else w) := by
    intro w w' o r h
    cases o with
    | none =>
      cases isScoped with
      | true => cases h
      | false =>
        cases h
        exact ⟨rfl, .inl ⟨rfl, rfl⟩⟩
    | some s =>
      cases h
      exact ⟨rfl, .inr ⟨s, rfl, rfl⟩⟩
  unfold getSnapshotWith at h
  split at h
  · rename_i hfast
    split at h
    · rename_i o ho
      obtain ⟨rfl, ⟨rfl, rfl⟩ | ⟨s, rfl, rfl⟩⟩ := hhandle h
      · exact .inl ⟨rfl, rfl⟩
      · exact .inr (.inr ⟨s, rfl, ho, rfl⟩)
    · rename_i hnone
      obtain ⟨rfl, ⟨-, rfl⟩ | ⟨s, hs, -⟩⟩ := hhandle h
      · exact .inr (.inl ⟨rfl, hfast, not_mem_iff.mpr hnone, rfl⟩)
      · cases hs
  · split at h
    · cases h
      exact .inl ⟨rfl, rfl⟩
    · split at h
      · cases h
        exact .inl ⟨rfl, rfl⟩
      · rename_i o ho
        obtain ⟨rfl, ⟨rfl, rfl⟩ | ⟨s, rfl, rfl⟩⟩ := hhandle h
        · exact .inl ⟨rfl, rfl⟩
        · exact .inr (.inr ⟨s, rfl, ho, rfl⟩)

/-- **What the other calls do**: handles and queued snapshots go or come from where they were, and
references are dropped. -/
theorem call_other {stale : Int → String} {w w' : World} {c : Call} (h : w.Sound) (hb : w.Bounded)
    (hcall : w.call stale c = some w') (hadd : ∀ id, c ≠ .add id)
    (hget : ∀ id isScoped, c ≠ .getSnapshot id isScoped) :
    ∃ handles toRelease done, handles ⊆ w.handles ∧ toRelease ⊆ w.toRelease ∧
      Drops { w with handles := handles, toRelease := toRelease, done := done } w' := by
  have hsound : ∀ handles toRelease done,
      World.Sound { w with handles := handles, toRelease := toRelease, done := done } := by
    intro handles toRelease done
    obtain ⟨h₁, h₂, h₃, h₄, h₅, h₆⟩ := h
    exact ⟨h₁, h₂, h₃, h₄, h₅, h₆⟩
  cases c with
  | add id => exact absurd rfl (hadd id)
  | getSnapshot id isScoped => exact absurd rfl (hget id isScoped)
  | copyHandle s =>
    simp only [call] at hcall
    split at hcall
    · rename_i hmem
      cases hcall
      exact ⟨s :: w.handles, w.toRelease, w.done,
        List.cons_subset.mpr ⟨hmem, List.Subset.refl _⟩, List.Subset.refl _,
        Drops.refl (hsound _ _ _)⟩
    · cases hcall
  | overwriteHandle s =>
    simp only [call] at hcall
    split at hcall
    · cases hcall
      exact ⟨w.handles.erase s, w.toRelease, w.done, List.erase_subset, List.Subset.refl _,
        Drops.refl (hsound _ _ _)⟩
    · cases hcall
  | destroyHandle s =>
    simp only [call] at hcall
    split at hcall
    · rename_i hmem
      cases hcall
      exact ⟨w.handles.erase s, w.toRelease, w.done, List.erase_subset, List.Subset.refl _,
        (hsound _ _ _).unRefSnapshot (hb.handles s hmem)⟩
    · cases hcall
  | gcPass =>
    simp only [call, World.gcPass] at hcall
    split at hcall
    · cases hcall
      exact ⟨w.handles, w.toRelease, w.done, List.Subset.refl _, List.Subset.refl _,
        Drops.refl (hsound _ _ _)⟩
    · exact ⟨w.handles, [], w.done, List.Subset.refl _, List.nil_subset _,
        (hsound _ _ _).unRefEach hb.toRelease hcall⟩
  | notifyDone =>
    cases hcall
    exact ⟨w.handles, w.toRelease, true, List.Subset.refl _, List.Subset.refl _,
      Drops.refl (hsound _ _ _)⟩

/-- **Every call** keeps what the holder works on. -/
theorem call_keeps {stale : Int → String} {w w' : World} {c : Call} (h : w.Sound) (hb : w.Bounded)
    (hcall : w.call stale c = some w') : w'.Sound ∧ w'.Bounded ∧ Keeps w w' := by
  cases c with
  | add id =>
    obtain ⟨⟨b, w₁⟩, hadd, rfl⟩ := Option.map_eq_some_iff.mp hcall
    obtain ⟨hsound, hkeeps, ⟨-, hwin, -⟩ | ⟨-, -, -, -, -, hlt, -, hins⟩⟩ := h.add hadd
    · exact ⟨hsound, hb.of_window hwin hkeeps.nextSnapshot, hkeeps⟩
    · exact ⟨hsound, hb.inserted hins hkeeps.nextSnapshot hlt, hkeeps⟩
  | getSnapshot id isScoped =>
    obtain ⟨⟨r, w₁⟩, hget, hret⟩ := Option.bind_eq_some_iff.mp hcall
    rcases getSnapshotWith_cases hget with ⟨rfl, rfl⟩ | ⟨rfl, -, -, rfl⟩ | ⟨s, rfl, hs, rfl⟩
    · cases hret
      exact ⟨h, hb, Keeps.refl _⟩
    · cases hret
      refine h.of_eq_bounded rfl rfl rfl rfl rfl ⟨fun k s hs => ?_, hb.toRelease, hb.handles⟩
      rcases getElem?_of_insert hs with ⟨-, heq⟩ | hold
      · cases heq
      · exact hb.active k s hold
    · cases isScoped with
      | false =>
        cases hret
        exact ⟨h, hb, Keeps.refl _⟩
      | true =>
        cases hret
        obtain ⟨hsound, hkeeps⟩ := @Sound.updateSnapshot _ h s Counted.ref rfl
        have hhandles : ∀ s', s' ∈ s :: w.handles → s' < w.nextSnapshot := by
          intro s' hs'
          rcases List.mem_cons.mp hs' with rfl | hs'
          · exact hb.active id _ hs
          · exact hb.handles s' hs'
        obtain ⟨hsound', hb', hkeeps'⟩ := @Sound.of_eq_bounded _
          { w.updateSnapshot s Counted.ref with handles := s :: w.handles } hsound rfl rfl rfl rfl rfl
          ⟨hb.active, hb.toRelease, hhandles⟩
        exact ⟨hsound', hb', hkeeps.trans hkeeps'⟩
  | copyHandle | overwriteHandle | destroyHandle | gcPass | notifyDone =>
    obtain ⟨handles, toRelease, done, hhandles, hrelease, hdrops⟩ :=
      call_other h hb hcall (fun _ => Call.noConfusion) fun _ _ => Call.noConfusion
    obtain ⟨-, hbounded, hkeeps⟩ := @Sound.of_eq_bounded _
      { w with handles := handles, toRelease := toRelease, done := done } h rfl rfl rfl rfl rfl
      ⟨hb.active, fun s hs => hb.toRelease s (hrelease hs), fun s hs => hb.handles s (hhandles hs)⟩
    exact ⟨hdrops.sound,
      hbounded.of_window hdrops.window (Nat.le_of_eq hdrops.nextSnapshot.symm),
      hkeeps.trans hdrops.keeps⟩

theorem Sound.of_init (random numVersions : Nat) : (init random numVersions).Sound := by
  refine ⟨rfl, fun id => ?_, fun id k hk => ?_, fun k hk => absurd hk (Nat.not_lt_zero k),
    fun id c hrow => ?_, fun s hs => absurd hs (Nat.not_lt_zero s)⟩
  · simp [init, ResourceHolder.new]
  · simp [init, ResourceHolder.new] at hk
  · obtain ⟨hcommit, hcol⟩ := Store.getElem?_fill random id
    have hrow : (Store.fill random).collectionCommit[id]? = some c := hrow
    rw [hcommit] at hrow
    split at hrow
    · rename_i hrange
      cases hrow
      exact ⟨rfl, hrange.1, hcol hrange⟩
    · cases hrow

theorem Bounded.of_init (random numVersions : Nat) : (init random numVersions).Bounded := by
  refine ⟨fun id s hs => ?_, fun s hs => ?_, fun s hs => ?_⟩
  · simp [init] at hs
  · cases hs
  · cases hs

theorem run_sound {stale : Int → String} {random numVersions : Nat} {calls : List Call} {w : World}
    (hrun : runSteps (call stale) (init random numVersions) calls = some w) :
    w.Sound ∧ w.Bounded :=
  @runSteps_inv _ _ (call stale) (fun w => w.Sound ∧ w.Bounded)
    (fun _ _ _ h hcall => ⟨(call_keeps h.1 h.2 hcall).1, (call_keeps h.1 h.2 hcall).2.1⟩) _ _ _
    ⟨Sound.of_init random numVersions, Bounded.of_init random numVersions⟩ hrun

/-! ## Refusals -/

/-- **Nothing changed**: the window is what it was, and so are the counts of all commits and
collections, of those in memory as well as of those that are not loaded. -/
structure Unchanged (w w' : World) : Prop where
  active : w'.active = w.active
  toRelease : w'.toRelease = w.toRelease
  minId : w'.minId = w.minId
  maxId : w'.maxId = w.maxId
  commits : ∀ k, k < w.commits.next → (w'.commits.objects k).refcnt = (w.commits.objects k).refcnt
  collections : ∀ k, k < w.collections.next →
    (w'.collections.objects k).refcnt = (w.collections.objects k).refcnt
  commitIds : ∀ id, w'.commits.refCnt id = w.commits.refCnt id
  collectionIds : ∀ id, w'.collections.refCnt id = w.collections.refCnt id

theorem Unchanged.refl (w : World) : Unchanged w w :=
  ⟨rfl, rfl, rfl, rfl, fun _ _ => rfl, fun _ _ => rfl, fun _ => rfl, fun _ => rfl⟩

/-- The constructor counts the commit. -/
theorem refCnt_newSnapshot {w w' : World} (h : w.Sound) {id : Int} {s : Nat}
    (hrun : w.newSnapshot id = some (s, w')) :
    w'.commits.refCnt id = w.commits.refCnt id + 1 := by
  rcases newSnapshot_cases h id with ⟨k, hcache, hnew⟩ | ⟨c, hcache, -, -, hnew⟩ | ⟨-, hnone⟩
  · cases hrun.symm.trans hnew
    simp [ResourceHolder.refCnt, attach, ResourceHolder.update, hcache, Counted.ref]
  · cases hrun.symm.trans hnew
    simp [ResourceHolder.refCnt, attach, load, ResourceHolder.update, hcache, Counted.ref]
  · rw [hnone] at hrun
    cases hrun

theorem Sound.exists_newSnapshot {w : World} (h : w.Sound) {id : Int}
    (hrow : id ∈ w.store.collectionCommit) : ∃ s w', w.newSnapshot id = some (s, w') := by
  rcases newSnapshot_cases h id with ⟨k, -, hnew⟩ | ⟨c, -, -, -, hnew⟩ | ⟨hnone, -⟩
  · exact ⟨_, _, hnew⟩
  · exact ⟨_, _, hnew⟩
  · exact absurd hrow hnone

/-- An `Add` that is not refused for its age makes a snapshot and then looks further. -/
theorem add_of_newSnapshot {w w' : World} {id : Int} {s : Nat}
    (hold : ¬ (0 < w.active.size ∧ id < w.maxId)) (hmade : w.newSnapshot id = some (s, w'))
    (hwin : SameWindow w w') (hrefused : w.done = true ∨ id ∈ w.active) :
    ∃ w'', w.add id = some (false, w'') ∧ w''.commits = w'.commits := by
  unfold add
  rw [if_neg hold, hmade, Option.bind_eq_bind, Option.bind_some]
  dsimp only
  rw [hwin.done]
  by_cases hdone : w.done = true
  · rw [if_pos hdone]
    exact ⟨w', rfl, rfl⟩
  · have hmem : id ∈ (w'.updateSnapshot s fun o => o.registerOnNoRefCB.ref).active := by
      show id ∈ w'.active
      rw [hwin.active]
      exact hrefused.resolve_left hdone
    rw [if_neg hdone, if_pos hmem]
    exact ⟨_, rfl, rfl⟩

/-- **A refused `Add` changes nothing if and only if** it is refused for its age, in every state
there is: where it is refused because the holder is done or has the id, the snapshot it made keeps
its references.

`Add` tests the age first, then makes a snapshot, which takes references to the rows of its
collection, and only then tests the rest under the lock. A snapshot that is thrown away there has no
destructor that would give the references back. -/
theorem add_unchanged_iff {stale : Int → String} {random numVersions : Nat} {calls : List Call}
    {w : World} (hrun : runSteps (call stale) (init random numVersions) calls = some w) {id : Int}
    (hrow : id ∈ w.store.collectionCommit) :
    (∀ w', w.add id = some (false, w') → Unchanged w w') ↔
      (0 < w.active.size ∧ id < w.maxId) ∨ (w.done = false ∧ id ∉ w.active) := by
  obtain ⟨h, -⟩ := run_sound hrun
  constructor
  · intro hsame
    by_contra hno
    obtain ⟨hold, hrefused⟩ := not_or.mp hno
    obtain ⟨s, w₁, hmade⟩ := h.exists_newSnapshot hrow
    obtain ⟨-, -, hwin, -⟩ := h.newSnapshot hmade
    obtain ⟨w', hadd, hcommits⟩ := add_of_newSnapshot hold hmade hwin (by
      by_contra hneither
      obtain ⟨hdone, hmem⟩ := not_or.mp hneither
      exact hrefused ⟨Bool.not_eq_true _ ▸ hdone, hmem⟩)
    have hcount := (hsame w' hadd).commitIds id
    rw [hcommits, refCnt_newSnapshot h hmade] at hcount
    omega
  · rintro (hold | ⟨hdone, hmem⟩) w' hadd
    · rcases add_cases hadd with ⟨-, -, rfl⟩ | ⟨hnew, -⟩
      · exact Unchanged.refl w'
      · exact absurd hold hnew
    · -- Nothing refuses it.
      rcases add_cases hadd with ⟨-, -, rfl⟩ | ⟨-, s, w₁, hmade, hrest⟩
      · exact Unchanged.refl w'
      · obtain ⟨-, -, hwin, -⟩ := h.newSnapshot hmade
        rcases hrest with ⟨hdone', -⟩ | ⟨-, hmem', -⟩ | ⟨-, -, hfalse, -⟩
        · rw [hwin.done, hdone] at hdone'
          cases hdone'
        · rw [hwin.active] at hmem'
          exact absurd hmem' hmem
        · cases hfalse

theorem add_unchanged_iff_second : ∃ w, runSteps (call fun _ => "c_1") (init 3 1) [.add 2] = some w ∧
    ((∀ w', w.add 1 = some (false, w') → Unchanged w w') ↔
      (0 < w.active.size ∧ 1 < w.maxId) ∨ (w.done = false ∧ 1 ∉ w.active)) :=
  ⟨_, rfl, @add_unchanged_iff (fun _ => "c_1") 3 1 [.add 2] _ rfl 1 (by decide +kernel)⟩

/-- The second `Add` of an id is refused, and its commit is counted twice. -/
theorem not_add_unchanged : ∃ w w', runSteps (call fun _ => "c_1") (init 3 1) [.add 1] = some w ∧
    1 ∈ w.store.collectionCommit ∧ w.add 1 = some (false, w') ∧ ¬ Unchanged w w' := by
  refine ⟨_, _, rfl, by decide +kernel, rfl, fun h => ?_⟩
  exact absurd (h.commitIds 1) (by decide +kernel)

end World

end CxxLab.NewMetaLab
