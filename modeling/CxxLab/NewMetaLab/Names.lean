import CxxLab.Lib.Run
import CxxLab.NewMetaLab.Resources

/-!
# `new_meta_lab/Resources.inl` — collections by name

`CollectionsHolder` has a second map, `name_map_`, for its lookups by name. Nothing is ever put
there: both its `Load`s, and its `Add`, end in the `AddNoLock` of the base class, which knows
`id_map_` alone. A lookup by name goes to the store each time and comes back with a new object, and
`id_map_` takes that in only if it has none of this id. A `Release` by name finds nothing.

Handles are not scoped here, so no reference is taken or dropped and the store stays as it is.
-/

set_option autoImplicit false

namespace CxxLab.NewMetaLab

open Std CxxLab.Lib

/-- `Store::GetCollection` of a name. -/
def Store.getCollectionByName (s : Store) (name : String) : Option Collection :=
  s.nameCollections[name]?

namespace CollectionsHolder

def new : CollectionsHolder := ⟨ResourceHolder.new, ∅⟩

/-- `std::make_shared<Collection>`. -/
def make (h : CollectionsHolder) (c : Collection) : CollectionsHolder :=
  { h with objects := Function.update h.objects h.next ⟨c, 0, 0⟩, next := h.next + 1 }

/-- `ResourceHolder::AddNoLock`. -/
def addNoLock (h : CollectionsHolder) (ptr : Nat) : Bool × CollectionsHolder :=
  let (added, holder) := h.toResourceHolder.addNoLock Collection.id ptr
  (added, { h with toResourceHolder := holder })

/-- `CollectionsHolder::Add`. -/
def add (h : CollectionsHolder) : Option Nat → Bool × CollectionsHolder
  | none => (false, h)
  | some ptr => h.addNoLock ptr

/-- `ResourceHolder::GetResource`, unscoped. -/
def getResource (h : CollectionsHolder) (s : Store) (id : Int) : Option Nat × CollectionsHolder :=
  let (ptr, holder) := h.toResourceHolder.getResource Collection.id s.getCollection id
  (ptr, { h with toResourceHolder := holder })

/-- `CollectionsHolder::Load` of a name. -/
def loadName (h : CollectionsHolder) (s : Store) (name : String) : Option Nat × CollectionsHolder :=
  match s.getCollectionByName name with
  | none => (none, h)
  | some c => (some h.next, ((h.make c).addNoLock h.next).2)

/-- `CollectionsHolder::GetCollection`, unscoped. -/
def getCollection (h : CollectionsHolder) (s : Store) (name : String) :
    Option Nat × CollectionsHolder :=
  match h.nameMap[name]? with
  | none => h.loadName s name
  | some ptr => (some ptr, h)

/-- `CollectionsHolder::Release` of a name. -/
def releaseName (h : CollectionsHolder) (name : String) : Bool × CollectionsHolder :=
  match h.nameMap[name]? with
  | none => (false, h)
  | some ptr => (true, { h with
      idMap := h.idMap.erase (h.objects ptr).value.id
      nameMap := h.nameMap.erase name })

/-- **The two maps have the same resources**, each under its own id and its own name. -/
structure InStep (h : CollectionsHolder) : Prop where
  byId : ∀ (id : Int) (ptr : Nat), h.idMap[id]? = some ptr → (h.objects ptr).value.id = id
  byName : ∀ (name : String) (ptr : Nat), h.nameMap[name]? = some ptr →
    (h.objects ptr).value.name = name
  same : ∀ ptr : Nat, (∃ id : Int, h.idMap[id]? = some ptr) ↔
    ∃ name : String, h.nameMap[name]? = some ptr

end CollectionsHolder

/-! ## Calls -/

/-- The holder, and what its lookups gave since the last `Release`. -/
structure Lookups where
  holder : CollectionsHolder
  given : List Nat

namespace Lookups

def start : Lookups := ⟨.new, []⟩

inductive Op where
  | getResource (id : Int)
  | getCollection (name : String)
  /-- Somebody makes a collection. -/
  | make (c : Collection)
  | add (resource : Option Nat)
  | release (id : Int)
  | releaseName (name : String)

/-- A lookup that gave this. -/
def give (S : Lookups) (r : Option Nat × CollectionsHolder) : Lookups := ⟨r.2, r.1.toList ++ S.given⟩

/-- One call. What is added is an object there is, or null. -/
def step (store : Store) (stale : Int → String) (S : Lookups) : Op → Option Lookups
  | .getResource id => some (S.give (S.holder.getResource store id))
  | .getCollection name => some (S.give (S.holder.getCollection store name))
  | .make c => some { S with holder := S.holder.make c }
  | .add none => some { S with holder := (S.holder.add none).2 }
  | .add (some ptr) =>
    if ptr < S.holder.next then some { S with holder := (S.holder.add (some ptr)).2 } else none
  | .release id => some ⟨S.holder.release (stale id) id, []⟩
  | .releaseName name => some ⟨(S.holder.releaseName name).2, []⟩

/-- **Lookups of the same collection** gave the same object. -/
def OneObject (S : Lookups) : Prop :=
  ∀ p ∈ S.given, ∀ q ∈ S.given,
    (S.holder.objects p).value.id = (S.holder.objects q).value.id → p = q

/-- The call finds no collection and is given none. -/
def Misses (store : Store) : Op → Prop
  | .getResource id => store.getCollection id = none
  | .getCollection name => store.getCollectionByName name = none
  | .add resource => resource = none
  | .make _ | .release _ | .releaseName _ => True

/-- Nothing was looked up or added yet. -/
structure Untouched (S : Lookups) : Prop where
  idMap : S.holder.idMap = ∅
  nameMap : S.holder.nameMap = ∅
  given : S.given = []

end Lookups

namespace CollectionsHolder

variable {h : CollectionsHolder}

/-- A resource that can be found by its id and not by its name. -/
theorem not_inStep (hname : h.nameMap = ∅) {id : Int} {ptr : Nat} (hid : h.idMap[id]? = some ptr) :
    ¬ h.InStep := by
  intro hstep
  obtain ⟨name, hfound⟩ := (hstep.same ptr).mp ⟨id, hid⟩
  rw [hname] at hfound
  exact absurd hfound (by simp)

/-- What `AddNoLock` does where there is nothing yet. -/
theorem addNoLock_empty (hid : h.idMap = ∅) (ptr : Nat) :
    (h.addNoLock ptr).2.idMap[(h.objects ptr).value.id]? = some ptr := by
  have hmem : (h.objects ptr).value.id ∉ h.idMap := by simp [hid]
  simp [addNoLock, ResourceHolder.addNoLock, hmem, ResourceHolder.update]

/-- Both `Load`s, of a collection that the store has. -/
theorem getResource_load {store : Store} {id : Int} {c : Collection} (hid : h.idMap[id]? = none)
    (hrow : store.getCollection id = some c) :
    h.getResource store id = (some h.next, ((h.make c).addNoLock h.next).2) := by
  simp only [getResource, ResourceHolder.getResource, hid, hrow]
  rfl

theorem getCollection_load {store : Store} {name : String} {c : Collection}
    (hname : h.nameMap[name]? = none) (hrow : store.getCollectionByName name = some c) :
    h.getCollection store name = (some h.next, ((h.make c).addNoLock h.next).2) := by
  simp only [getCollection, loadName, hname, hrow]

theorem getResource_hit {store : Store} {id : Int} {ptr : Nat} (hid : h.idMap[id]? = some ptr) :
    h.getResource store id = (some ptr, h) := by
  simp only [getResource, ResourceHolder.getResource, hid]

theorem getResource_miss {store : Store} {id : Int} (hid : h.idMap[id]? = none)
    (hrow : store.getCollection id = none) : h.getResource store id = (none, h) := by
  simp only [getResource, ResourceHolder.getResource, hid, hrow]

theorem getCollection_miss {store : Store} {name : String} (hname : h.nameMap[name]? = none)
    (hrow : store.getCollectionByName name = none) : h.getCollection store name = (none, h) := by
  simp only [getCollection, loadName, hname, hrow]

/-- What is added to an empty holder can be found by its id only. -/
theorem not_inStep_addNoLock (hid : h.idMap = ∅) (hname : h.nameMap = ∅) (ptr : Nat) :
    ¬ (h.addNoLock ptr).2.InStep :=
  not_inStep (h := (h.addNoLock ptr).2) hname (addNoLock_empty hid ptr)

end CollectionsHolder

namespace Lookups

variable {store : Store} {stale : Int → String} {S S' : Lookups} {a : Op}

/-- What a `Load` leaves. -/
def load (S : Lookups) (c : Collection) : Lookups :=
  ⟨((S.holder.make c).addNoLock S.holder.next).2, S.holder.next :: S.given⟩

/-- What a call can do where nothing has a name. -/
inductive Does (store : Store) (stale : Int → String) (S : Lookups) : Op → Lookups → Prop where
  | hit (id : Int) (ptr : Nat) : S.holder.idMap[id]? = some ptr →
    Does store stale S (.getResource id) ⟨S.holder, ptr :: S.given⟩
  | load (id : Int) (c : Collection) : S.holder.idMap[id]? = none →
    store.getCollection id = some c → Does store stale S (.getResource id) (S.load c)
  | miss (id : Int) : S.holder.idMap[id]? = none → store.getCollection id = none →
    Does store stale S (.getResource id) S
  | loadName (name : String) (c : Collection) : store.getCollectionByName name = some c →
    Does store stale S (.getCollection name) (S.load c)
  | missName (name : String) : store.getCollectionByName name = none →
    Does store stale S (.getCollection name) S
  | make (c : Collection) : Does store stale S (.make c) ⟨S.holder.make c, S.given⟩
  | addNull : Does store stale S (.add none) S
  | add (ptr : Nat) : ptr < S.holder.next →
    Does store stale S (.add (some ptr)) ⟨(S.holder.addNoLock ptr).2, S.given⟩
  | release (id : Int) : Does store stale S (.release id) ⟨S.holder.release (stale id) id, []⟩
  | releaseName (name : String) : Does store stale S (.releaseName name) ⟨S.holder, []⟩

theorem does_of_step (hempty : S.holder.nameMap = ∅) (hstep : step store stale S a = some S') :
    Does store stale S a S' := by
  have hname : ∀ name : String, S.holder.nameMap[name]? = none := by simp [hempty]
  cases a with
  | getResource id =>
    cases hstep
    cases hid : S.holder.idMap[id]? with
    | some ptr =>
      rw [CollectionsHolder.getResource_hit hid]
      exact .hit id ptr hid
    | none =>
      cases hrow : store.getCollection id with
      | some c =>
        rw [CollectionsHolder.getResource_load hid hrow]
        exact .load id c hid hrow
      | none =>
        rw [CollectionsHolder.getResource_miss hid hrow]
        exact .miss id hid hrow
  | getCollection name =>
    cases hstep
    cases hrow : store.getCollectionByName name with
    | some c =>
      rw [CollectionsHolder.getCollection_load (hname name) hrow]
      exact .loadName name c hrow
    | none =>
      rw [CollectionsHolder.getCollection_miss (hname name) hrow]
      exact .missName name hrow
  | make c =>
    cases hstep
    exact .make c
  | add resource =>
    cases resource with
    | none =>
      cases hstep
      exact .addNull
    | some ptr =>
      simp only [step, Option.ite_none_right_eq_some, Option.some_inj] at hstep
      obtain ⟨hptr, rfl⟩ := hstep
      exact .add ptr hptr
  | release id =>
    cases hstep
    exact .release id
  | releaseName name =>
    cases hstep
    simp only [CollectionsHolder.releaseName, hname name]
    exact .releaseName name

theorem Untouched.of_start : Untouched start := ⟨rfl, rfl, rfl⟩

theorem Untouched.inStep (h : Untouched S) : S.holder.InStep where
  byId := by simp [h.idMap]
  byName := by simp [h.nameMap]
  same := by simp [h.idMap, h.nameMap]

theorem Untouched.oneObject (h : Untouched S) : S.OneObject := by
  intro p hp
  rw [h.given] at hp
  cases hp

/-- A call that finds nothing leaves nothing. -/
theorem Untouched.step (h : Untouched S) (hmiss : Misses store a)
    (hstep : Lookups.step store stale S a = some S') : Untouched S' := by
  cases does_of_step h.nameMap hstep with
  | hit id ptr hid => exact absurd hid (by simp [h.idMap])
  | load id c hid hrow => exact absurd (hrow.symm.trans hmiss) (Option.some_ne_none c)
  | loadName name c hrow => exact absurd (hrow.symm.trans hmiss) (Option.some_ne_none c)
  | add ptr hptr => exact absurd hmiss (Option.some_ne_none ptr)
  | make c => exact ⟨h.idMap, h.nameMap, h.given⟩
  | miss id hid hrow => exact h
  | missName name hrow => exact h
  | addNull => exact h
  | release id =>
    have hmem : id ∉ S.holder.idMap := by simp [h.idMap]
    simp only [CollectionsHolder.release, if_neg hmem]
    exact ⟨h.idMap, h.nameMap, rfl⟩
  | releaseName name => exact ⟨h.idMap, h.nameMap, rfl⟩

/-- **The first collection there is** is found by its id and not by its name. -/
theorem Untouched.not_inStep (h : Untouched S) (hstep : Lookups.step store stale S a = some S')
    (hhit : ¬ Misses store a) : ¬ S'.holder.InStep := by
  have hload : ∀ c, ¬ (S.load c).holder.InStep := fun c =>
    CollectionsHolder.not_inStep_addNoLock (h := S.holder.make c) h.idMap h.nameMap _
  cases does_of_step h.nameMap hstep with
  | hit id ptr hid => exact absurd hid (by simp [h.idMap])
  | load id c hid hrow => exact hload c
  | loadName name c hrow => exact hload c
  | add ptr hptr => exact CollectionsHolder.not_inStep_addNoLock h.idMap h.nameMap ptr
  | miss id hid hrow => exact absurd hrow hhit
  | missName name hrow => exact absurd hrow hhit
  | addNull => exact absurd rfl hhit
  | make c => exact absurd trivial hhit
  | release id => exact absurd trivial hhit
  | releaseName name => exact absurd trivial hhit

/-- The maps are in step after the call, and lookups have given one object for each collection.

In step are the two maps if a collection is in one exactly if it is in the other, under its id here
and under its name there. Lookups are compared with those since the last `Release`. -/
def Keeps (store : Store) (stale : Int → String) (S : Lookups) (a : Op) : Prop :=
  ∀ S', step store stale S a = some S' → S'.holder.InStep ∧ S'.OneObject

/-- **The two maps are kept in step** only as long as no collection comes in.

All of `Load` and `Add` end in `AddNoLock`, which enters a collection in `id_map_` and knows nothing
of `name_map_`. So with the first collection that is found, or is given, the maps differ. What
lookups do from there on is `oneObject_iff`. -/
theorem keeps_iff {ops : List Op} (hrun : runSteps (step store stale) start ops = some S) :
    Along (step store stale) (Keeps store stale) start ops ↔ ∀ a ∈ ops, Misses store a := by
  have hiff : ∀ (S : Lookups) (a : Op) (S' : Lookups), Untouched S →
      step store stale S a = some S' → (Keeps store stale S a ↔ Misses store a) := by
    intro S a S' h hstep
    constructor
    · intro hkeep
      by_contra hhit
      exact h.not_inStep hstep hhit (hkeep S' hstep).1
    · intro hmiss S₁ hstep₁
      have hlater := h.step hmiss hstep₁
      exact ⟨hlater.inStep, hlater.oneObject⟩
  rw [Along.iff_of_inv hiff ?_ .of_start hrun, Along.const_iff hrun]
  intro S a S' h hkeep hstep
  exact h.step ((hiff S a S' h hstep).mp hkeep) hstep

/-! ## What lookups give

The second half of `Keeps` fails later than the first: it takes two lookups. -/

/-- The id of an object. -/
def idOf (S : Lookups) (ptr : Nat) : Int := (S.holder.objects ptr).value.id

/-- What the lookup is going to give is what others gave before, or of a collection of its own. A
lookup by name gives something new. -/
def Known (store : Store) (S : Lookups) : Op → Prop
  | .getResource id => match S.holder.idMap[id]? with
    | some ptr => ∀ p ∈ S.given, S.idOf p = id → p = ptr
    | none => ∀ c, store.getCollection id = some c → ∀ p ∈ S.given, S.idOf p ≠ c.id
  | .getCollection name =>
    ∀ c, store.getCollectionByName name = some c → ∀ p ∈ S.given, S.idOf p ≠ c.id
  | .make _ | .add _ | .release _ | .releaseName _ => True

/-- What all runs keep. -/
structure Tracked (S : Lookups) : Prop where
  nameMap : S.holder.nameMap = ∅
  given : ∀ p ∈ S.given, p < S.holder.next
  idMap : ∀ (id : Int) (ptr : Nat), S.holder.idMap[id]? = some ptr →
    ptr < S.holder.next ∧ S.idOf ptr = id

theorem Tracked.of_start : Tracked start where
  nameMap := rfl
  given := nofun
  idMap := by simp [start, CollectionsHolder.new, ResourceHolder.new]

/-- `AddNoLock` enters the object under its id or leaves everything. -/
theorem addNoLock_cases (h : CollectionsHolder) (ptr : Nat) :
    (h.addNoLock ptr).2 = h ∨ (h.addNoLock ptr).2 = { h with
      objects := Function.update h.objects ptr (h.objects ptr).registerOnNoRefCB
      idMap := h.idMap.insert (h.objects ptr).value.id ptr } := by
  simp only [CollectionsHolder.addNoLock, ResourceHolder.addNoLock]
  split
  · exact .inl rfl
  · exact .inr rfl

theorem value_update (objects : Nat → Counted Collection) (ptr p : Nat) :
    (Function.update objects ptr (objects ptr).registerOnNoRefCB p).value = (objects p).value := by
  rw [Function.update_apply]
  split
  · rename_i hp
    rw [hp]
    rfl
  · rfl

theorem idOf_addNoLock (h : CollectionsHolder) (given : List Nat) (ptr p : Nat) :
    idOf ⟨(h.addNoLock ptr).2, given⟩ p = idOf ⟨h, given⟩ p := by
  rcases addNoLock_cases h ptr with heq | heq
  · rw [heq]
  · rw [heq]
    exact congrArg Collection.id (value_update h.objects ptr p)

theorem Tracked.addNoLock {h : CollectionsHolder} {given : List Nat} (ht : Tracked ⟨h, given⟩)
    {ptr : Nat} (hptr : ptr < h.next) : Tracked ⟨(h.addNoLock ptr).2, given⟩ := by
  refine ⟨ht.nameMap, ?_, ?_⟩
  · rcases addNoLock_cases h ptr with heq | heq
    · rw [heq]
      exact ht.given
    · rw [heq]
      exact ht.given
  · intro id p hid
    rw [idOf_addNoLock]
    rcases addNoLock_cases h ptr with heq | heq
    · rw [heq] at hid ⊢
      exact ht.idMap id p hid
    · rw [heq] at hid ⊢
      simp only [getElem?_insert_eq] at hid
      split at hid
      · rename_i hnew
        cases hid
        exact ⟨hptr, hnew.symm⟩
      · exact ht.idMap id p hid

theorem idOf_make {S : Lookups} {c : Collection} {p : Nat} (hp : p < S.holder.next) :
    idOf ⟨S.holder.make c, S.given⟩ p = S.idOf p := by
  simp [idOf, CollectionsHolder.make, Function.update_of_ne (Nat.ne_of_lt hp)]

theorem Tracked.make (h : Tracked S) (c : Collection) : Tracked ⟨S.holder.make c, S.given⟩ := by
  refine ⟨h.nameMap, fun p hp => Nat.lt_succ_of_lt (h.given p hp), fun id p hid => ?_⟩
  obtain ⟨hlt, hkey⟩ := h.idMap id p hid
  rw [idOf_make hlt]
  exact ⟨Nat.lt_succ_of_lt hlt, hkey⟩

theorem idOf_load_next (S : Lookups) (c : Collection) : (S.load c).idOf S.holder.next = c.id := by
  rw [load, idOf_addNoLock]
  simp [idOf, CollectionsHolder.make]

theorem idOf_load {c : Collection} {p : Nat} (hp : p < S.holder.next) :
    (S.load c).idOf p = S.idOf p := by
  rw [load, idOf_addNoLock]
  exact idOf_make hp

theorem Tracked.load (h : Tracked S) (c : Collection) : Tracked (S.load c) := by
  have hmake := (h.make c).addNoLock (Nat.lt_succ_self S.holder.next)
  have hnext : (S.load c).holder.next = S.holder.next + 1 := by
    rcases addNoLock_cases (S.holder.make c) S.holder.next with heq | heq
    · rw [Lookups.load, heq]
      rfl
    · rw [Lookups.load, heq]
      rfl
  refine ⟨hmake.nameMap, fun p hp => ?_, hmake.idMap⟩
  rw [hnext]
  rcases List.mem_cons.mp hp with rfl | hp
  · exact Nat.lt_succ_self _
  · exact Nat.lt_succ_of_lt (h.given p hp)

/-- A new object is the one object of its collection only if no other was given. -/
theorem Tracked.oneObject_load_iff (h : Tracked S) (hone : S.OneObject) (c : Collection) :
    (S.load c).OneObject ↔ ∀ p ∈ S.given, S.idOf p ≠ c.id := by
  constructor
  · intro hload p hp hid
    have hsame := hload p (List.mem_cons_of_mem _ hp) S.holder.next List.mem_cons_self
      ((idOf_load (h.given p hp)).trans (hid.trans (idOf_load_next S c).symm))
    exact absurd (h.given p hp) (by omega)
  · intro hnew p hp q hq hid
    change (S.load c).idOf p = (S.load c).idOf q at hid
    rcases List.mem_cons.mp hp with rfl | hp <;> rcases List.mem_cons.mp hq with rfl | hq
    · rfl
    · rw [idOf_load_next, idOf_load (h.given q hq)] at hid
      exact absurd hid.symm (hnew q hq)
    · rw [idOf_load_next, idOf_load (h.given p hp)] at hid
      exact absurd hid (hnew p hp)
    · rw [idOf_load (h.given p hp), idOf_load (h.given q hq)] at hid
      exact hone p hp q hq hid

/-- An object that the holder has. -/
theorem Tracked.oneObject_cons_iff (h : Tracked S) (hone : S.OneObject) {id : Int} {ptr : Nat}
    (hid : S.holder.idMap[id]? = some ptr) :
    OneObject ⟨S.holder, ptr :: S.given⟩ ↔ ∀ p ∈ S.given, S.idOf p = id → p = ptr := by
  have hkey : S.idOf ptr = id := (h.idMap id ptr hid).2
  constructor
  · intro hcons p hp heq
    exact hcons p (List.mem_cons_of_mem _ hp) ptr List.mem_cons_self (heq.trans hkey.symm)
  · intro hsame p hp q hq heq
    rcases List.mem_cons.mp hp with hpp | hpg <;> rcases List.mem_cons.mp hq with hqp | hqg
    · exact hpp.trans hqp.symm
    · subst hpp
      exact (hsame q hqg (heq.symm.trans hkey)).symm
    · subst hqp
      exact hsame p hpg (heq.trans hkey)
    · exact hone p hpg q hqg heq

/-- A `Release` by id. -/
theorem Tracked.release (h : Tracked S) (name : String) (id : Int) :
    Tracked ⟨S.holder.release name id, []⟩ := by
  have hempty : (S.holder.release name id).nameMap = ∅ := by
    rw [CollectionsHolder.release]
    split
    · show S.holder.nameMap.erase name = ∅
      rw [h.nameMap, ExtTreeMap.erase_empty]
    · exact h.nameMap
  refine ⟨hempty, nofun, fun k p hk => ?_⟩
  have hold : S.holder.idMap[k]? = some p := by
    change (S.holder.release name id).idMap[k]? = some p at hk
    rw [CollectionsHolder.getElem?_release, Option.ite_none_left_eq_some] at hk
    exact hk.2
  simpa [idOf] using h.idMap k p hold

theorem Tracked.step (h : Tracked S) (hstep : Lookups.step store stale S a = some S') :
    Tracked S' := by
  cases does_of_step h.nameMap hstep with
  | hit id ptr hid =>
    refine ⟨h.nameMap, fun p hp => ?_, h.idMap⟩
    rcases List.mem_cons.mp hp with hptr | hgiven
    · exact hptr ▸ (h.idMap id ptr hid).1
    · exact h.given p hgiven
  | load id c hid hrow => exact h.load c
  | loadName name c hrow => exact h.load c
  | make c => exact h.make c
  | add ptr hptr => exact h.addNoLock hptr
  | miss id hid hrow => exact h
  | missName name hrow => exact h
  | addNull => exact h
  | release id => exact h.release (stale id) id
  | releaseName name => exact ⟨h.nameMap, nofun, h.idMap⟩

theorem OneObject.of_idOf (hone : S.OneObject) (hgiven : S'.given = S.given)
    (hid : ∀ p ∈ S.given, S'.idOf p = S.idOf p) : S'.OneObject := by
  intro p hp q hq heq
  rw [hgiven] at hp hq
  exact hone p hp q hq ((hid p hp).symm.trans (heq.trans (hid q hq)))

theorem OneObject.of_nil (h : S.given = []) : S.OneObject := by
  intro p hp
  rw [h] at hp
  cases hp

/-- **One call** gives what is known, or something of a new collection. -/
theorem Tracked.step_iff (h : Tracked S) (hone : S.OneObject)
    (hstep : Lookups.step store stale S a = some S') : S'.OneObject ↔ Known store S a := by
  cases does_of_step h.nameMap hstep with
  | hit id ptr hid =>
    simp only [Known, hid]
    exact h.oneObject_cons_iff hone hid
  | load id c hid hrow =>
    simp only [Known, hid, hrow]
    simpa using h.oneObject_load_iff hone c
  | miss id hid hrow =>
    simp only [Known, hid, hrow]
    exact iff_of_true hone nofun
  | loadName name c hrow =>
    simp only [Known, hrow]
    simpa using h.oneObject_load_iff hone c
  | missName name hrow =>
    simp only [Known, hrow]
    exact iff_of_true hone nofun
  | make c => exact iff_of_true (hone.of_idOf rfl fun p hp => idOf_make (h.given p hp)) trivial
  | addNull => exact iff_of_true hone trivial
  | add ptr hptr =>
    exact iff_of_true (hone.of_idOf rfl fun p _ => idOf_addNoLock S.holder S.given ptr p) trivial
  | release id => exact iff_of_true (.of_nil rfl) trivial
  | releaseName name => exact iff_of_true (.of_nil rfl) trivial

/-- **Lookups give one object for each collection** as long as each gives what is known, or something
of a new collection. -/
theorem oneObject_iff {ops : List Op} (hrun : runSteps (step store stale) start ops = some S) :
    Along (step store stale) (fun S a => ∀ S', step store stale S a = some S' → S'.OneObject) start
        ops ↔
      Along (step store stale) (Known store) start ops := by
  refine Along.iff_of_inv (I := fun S => Tracked S ∧ S.OneObject) ?_ ?_ ⟨.of_start, .of_nil rfl⟩ hrun
  · intro S a S' hI hstep
    rw [← hI.1.step_iff hI.2 hstep, hstep]
    simp
  · intro S a S' hI hkeep hstep
    exact ⟨hI.1.step hstep, hkeep S' hstep⟩

/-! ## Two collections -/

/-- A run that finds nothing. -/
def idle : List Op := [.getResource 3, .make ⟨3, "c_3"⟩, .add none, .getCollection "c_3", .release 3]

theorem keeps_iff_idle : ∃ S, runSteps (step (Store.fill 2) fun _ => "") start idle = some S ∧
    (Along (step (Store.fill 2) fun _ => "") (Keeps (Store.fill 2) fun _ => "") start idle ↔
      ∀ a ∈ idle, Misses (Store.fill 2) a) :=
  ⟨_, rfl, keeps_iff rfl⟩

/-- A collection that was found by its id is loaded again by its name. -/
theorem not_keeps : ∃ S, runSteps (step (Store.fill 2) fun _ => "") start
      [.getResource 1, .getCollection "c_1"] = some S ∧
    S.given = [1, 0] ∧ S.idOf 0 = 1 ∧ S.idOf 1 = 1 ∧
    (S.holder.objects 0).callbacks = 1 ∧ (S.holder.objects 1).callbacks = 0 ∧
    ¬ Along (step (Store.fill 2) fun _ => "") (Keeps (Store.fill 2) fun _ => "") start
      [.getResource 1, .getCollection "c_1"] := by
  refine ⟨_, rfl, rfl, rfl, rfl, rfl, rfl, fun h => ?_⟩
  obtain ⟨-, hone⟩ := @Along.last _ _ (step (Store.fill 2) fun _ => "") _ [.getResource 1]
    (.getCollection "c_1") _ _ h rfl _ rfl
  exact absurd (hone 1 (by decide +kernel) 0 (by decide +kernel) rfl) Nat.one_ne_zero

end Lookups

end CxxLab.NewMetaLab
