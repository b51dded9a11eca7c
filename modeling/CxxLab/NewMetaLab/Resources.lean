import CxxLab.Lib.KVStore
import Mathlib.Algebra.Ring.Nat
import Mathlib.Logic.Function.Iterate

/-!
# `new_meta_lab` — counted resources, the store, and the holders

`Store` is the database: collections and their commits. A `ResourceHolder` caches copies of its
rows, loaded when they are first asked for, and each copy is a `ReferenceProxy`: when its count
comes down to zero its callbacks run, and the callback a holder registers deletes the row from
the store and drops the copy.

The holders are class templates and stay generic here. Pointers are numbers into the holder's own
memory. A callback registered for a resource is always the same call, so what is kept of
`on_no_ref_cbs_` is how many there are.

`refcnt_` is an `int`. The counts here are numbers, and `ref` only adds one; a `Ref` at `intMax` has no
defined result in the code, and the systems whose runs depend on it give such a step none (`World.step`,
`Handles.ref`). What is said of every run of the other systems is said of the runs in which no count
passes `intMax` among them.

`CollectionsHolder::Release` erases an entry and then reads the name of the collection *through
the erased iterator*. What it finds there is up to the allocator, so the name it erases from
`name_map_` is a parameter of the model: `stale`.
-/

set_option autoImplicit false

namespace CxxLab.NewMetaLab

open Std CxxLab.Lib

/-- `std::map<ID_TYPE, T>`. -/
abbrev IdMap (α : Type) := ExtTreeMap Int α

/-- `Collection`, less its status and time stamp. -/
structure Collection where
  id : Int
  name : String
  deriving DecidableEq, Inhabited

/-- `CollectionCommit`, less its mappings, status and time stamp. -/
structure CollectionCommit where
  id : Int
  collectionId : Int
  deriving DecidableEq, Inhabited

/-! ## `ReferenceProxy` -/

/-- `std::numeric_limits<int>::max()`, the largest count. -/
def intMax : Nat := 2 ^ 31 - 1

/-- An object with a count and this many registered callbacks. -/
structure Counted (α : Type) where
  value : α
  refcnt : Nat
  callbacks : Nat
  deriving Inhabited

namespace Counted

variable {α : Type}

/-- `ReferenceProxy::Ref`. -/
def ref (o : Counted α) : Counted α := { o with refcnt := o.refcnt + 1 }

/-- `ReferenceProxy::UnRef`: the object, and how many callbacks are run. -/
def unRef (o : Counted α) : Counted α × Nat :=
  if o.refcnt = 0 then (o, 0)
  else ({ o with refcnt := o.refcnt - 1 }, if o.refcnt = 1 then o.callbacks else 0)

/-- `ReferenceProxy::RegisterOnNoRefCB`. -/
def registerOnNoRefCB (o : Counted α) : Counted α := { o with callbacks := o.callbacks + 1 }

end Counted

/-! ## `Store` -/

structure Store where
  idCollections : IdMap Collection
  nameCollections : ExtTreeMap String Collection
  collectionCommit : IdMap CollectionCommit

namespace Store

/-- One turn of the loop of `Store::Store`. -/
def addRow (s : Store) (i : Nat) : Store :=
  let c : Collection := ⟨i, s!"c_{i}"⟩
  { idCollections := s.idCollections.insert i c
    nameCollections := s.nameCollections.insert c.name c
    collectionCommit := s.collectionCommit.insert i ⟨i, i⟩ }

/-- `Store::Store` with `random` collections, numbered from 1. -/
def fill (random : Nat) : Store := (List.range' 1 random).foldl addRow ⟨∅, ∅, ∅⟩

/-- `Store::GetCollection`. -/
def getCollection (s : Store) (id : Int) : Option Collection := s.idCollections[id]?

/-- `Store::RemoveCollection`. -/
def removeCollection (s : Store) (id : Int) : Store :=
  match s.idCollections[id]? with
  | none => s
  | some c => { s with
      idCollections := s.idCollections.erase id
      nameCollections := s.nameCollections.erase c.name }

/-- `Store::GetCollectionCommit`. -/
def getCollectionCommit (s : Store) (id : Int) : Option CollectionCommit := s.collectionCommit[id]?

/-- `Store::RemoveCollectionCommit`. -/
def removeCollectionCommit (s : Store) (id : Int) : Store :=
  { s with collectionCommit := s.collectionCommit.erase id }

end Store

/-! ## The holders -/

/-- `ResourceHolder`: the copies in memory, and which of them are cached under which id. -/
structure ResourceHolder (α : Type) where
  objects : Nat → Counted α
  next : Nat
  idMap : IdMap Nat

namespace ResourceHolder

variable {α : Type}

def new [Inhabited α] : ResourceHolder α := ⟨fun _ => default, 0, ∅⟩

/-- Change one object. -/
def update (h : ResourceHolder α) (ptr : Nat) (f : Counted α → Counted α) : ResourceHolder α :=
  { h with objects := Function.update h.objects ptr (f (h.objects ptr)) }

/-- `ResourceHolder::AddNoLock`. -/
def addNoLock (h : ResourceHolder α) (getID : α → Int) (ptr : Nat) : Bool × ResourceHolder α :=
  let id := getID (h.objects ptr).value
  if id ∈ h.idMap then (false, h)
  else (true, { h with idMap := h.idMap.insert id ptr }.update ptr Counted.registerOnNoRefCB)

/-- `ResourceHolder::GetResource`, unscoped, with the `Load` of the derived class. -/
def getResource (h : ResourceHolder α) (getID : α → Int) (load : Int → Option α) (id : Int) :
    Option Nat × ResourceHolder α :=
  match h.idMap[id]? with
  | some ptr => (some ptr, h)
  | none =>
    match load id with
    | none => (none, h)
    | some a =>
      let loaded := { h with
        objects := Function.update h.objects h.next ⟨a, 0, 0⟩
        next := h.next + 1 }
      (some h.next, (loaded.addNoLock getID h.next).2)

/-- `ResourceHolder::Release`. -/
def release (h : ResourceHolder α) (id : Int) : ResourceHolder α :=
  { h with idMap := h.idMap.erase id }

end ResourceHolder

/-- `CollectionsHolder`, which also has a map by name. -/
structure CollectionsHolder extends ResourceHolder Collection where
  nameMap : ExtTreeMap String Nat

namespace CollectionsHolder

/-- `CollectionsHolder::Release`, where the erased iterator leads to the name `stale`. -/
def release (h : CollectionsHolder) (stale : String) (id : Int) : CollectionsHolder :=
  if id ∈ h.idMap then
    { h with idMap := h.idMap.erase id, nameMap := h.nameMap.erase stale }
  else h

end CollectionsHolder

/-! ## Lookups -/

namespace Store

@[simp] theorem collectionCommit_removeCollection (s : Store) (id : Int) :
    (s.removeCollection id).collectionCommit = s.collectionCommit := by
  unfold removeCollection
  split <;> rfl

theorem getElem?_removeCollection (s : Store) (id k : Int) :
    (s.removeCollection id).idCollections[k]? = if k = id then none else s.idCollections[k]? := by
  unfold removeCollection
  split
  · rename_i hnone
    split
    · rename_i hk; rw [hk, hnone]
    · rfl
  · exact getElem?_erase_eq _ _ _

theorem getElem?_removeCollectionCommit (s : Store) (id k : Int) :
    (s.removeCollectionCommit id).collectionCommit[k]? =
      if k = id then none else s.collectionCommit[k]? :=
  getElem?_erase_eq _ _ _

/-- The rows of a new store. -/
theorem getElem?_fill (random : Nat) (k : Int) :
    (fill random).collectionCommit[k]? = (if 1 ≤ k ∧ k ≤ random then some ⟨k, k⟩ else none) ∧
      (1 ≤ k ∧ k ≤ random → ∃ c, (fill random).idCollections[k]? = some c ∧ c.id = k) := by
  induction random with
  | zero => simp [fill]; omega
  | succ n ih =>
    have hfill : fill (n + 1) = (fill n).addRow (n + 1) := by
      rw [fill, List.range'_concat, List.foldl_append, Nat.one_mul, Nat.add_comm 1 n]
      rfl
    rw [hfill]
    refine ⟨?_, fun hk => ?_⟩
    · rw [addRow, getElem?_insert_eq, ih.1]
      by_cases hk : k = ((n + 1 : Nat) : Int)
      · rw [if_pos hk, if_pos (by omega), ← hk]
      · rw [if_neg hk]
        by_cases hr : 1 ≤ k ∧ k ≤ n
        · rw [if_pos hr, if_pos (by omega)]
        · rw [if_neg hr, if_neg (by omega)]
    · rw [addRow, getElem?_insert_eq]
      by_cases hk' : k = ((n + 1 : Nat) : Int)
      · rw [if_pos hk']
        exact ⟨_, rfl, hk'.symm⟩
      · rw [if_neg hk']
        exact ih.2 (by omega)

end Store

/-- The first time a resource is asked for, it is loaded. -/
theorem ResourceHolder.getResource_load {α : Type} {h : ResourceHolder α} (getID : α → Int)
    (load : Int → Option α) {id : Int} {a : α} (hnew : h.idMap[id]? = none)
    (hload : load id = some a) (hid : getID a = id) :
    h.getResource getID load id = (some h.next,
      { objects := Function.update h.objects h.next ⟨a, 0, 1⟩
        next := h.next + 1
        idMap := h.idMap.insert id h.next }) := by
  have hmem : id ∉ h.idMap := not_mem_iff.mpr hnew
  simp [getResource, hload, addNoLock, hid, hmem, update, Counted.registerOnNoRefCB]

namespace CollectionsHolder

theorem getElem?_release (h : CollectionsHolder) (stale : String) (id k : Int) :
    (h.release stale id).idMap[k]? = if k = id then none else h.idMap[k]? := by
  unfold release
  split
  · exact getElem?_erase_eq _ _ _
  · rename_i hnone
    rw [not_mem_iff] at hnone
    split
    · rename_i hk; rw [hk, hnone]
    · rfl

@[simp] theorem objects_release (h : CollectionsHolder) (stale : String) (id : Int) :
    (h.release stale id).objects = h.objects := by
  unfold release
  split <;> rfl

@[simp] theorem next_release (h : CollectionsHolder) (stale : String) (id : Int) :
    (h.release stale id).next = h.next := by
  unfold release
  split <;> rfl

end CollectionsHolder

end CxxLab.NewMetaLab
