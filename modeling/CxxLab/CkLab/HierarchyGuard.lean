import CxxLab.Lib.Run
import CxxLab.Lib.Tally

/-!
# `ck_lab/HierarchyGuard.h` — guards of entries

A `BaseGuard` holds the mutex of the entry of its id. Entries are made when a guard comes for an id
that has none and are gone with the last guard, and each counts the guards there are for it; that is
done under the guard mutex, which all guards of a relation share. The mutex of the entry itself is
taken outside it, through a cursor that was kept.

A step is one of the things a guard does: it locks or unlocks, it calls `emplace` or `erase`, it raises
or lowers the counter. `GetEntryCount` takes no lock, so what it can see includes an entry that is in the
relation and is not counted yet, or is no longer. That is so only while the guard that made it or left it
is between two steps of its own (`Phase.Between`); at all other moments there is an entry exactly where
its counter is positive (`Exclusive`).

The counter is a `uint32_t`. With 2^32 guards of one id it is zero again, and with one more the next
destructor takes away an entry that the others wait on. Below that `run_exclusive` has it that every
cursor that is kept leads to the entry of its id.
-/

set_option autoImplicit false

namespace CxxLab.CkLab

open CxxLab.Lib

/-- `BaseGuard::Entry`, with the guard that has locked the mutex. -/
structure Entry (G : Type) where
  counter : UInt32
  mutex : Option G
  deriving DecidableEq

/-- Where a guard is, with its id and `rel_cursor_`. -/
inductive Phase (Id : Type) where
  | absent
  /-- `guard_lock` was locked for it. -/
  | guardLocked (id : Id)
  /-- It has a cursor, and is not counted yet. -/
  | emplaced (id : Id) (cursor : Nat)
  /-- It is counted, and still has the guard mutex. -/
  | entered (id : Id) (cursor : Nat)
  /-- It waits for the mutex of the entry. -/
  | waiting (id : Id) (cursor : Nat)
  | holding (id : Id) (cursor : Nat)
  /-- `CleanEntries` has the guard mutex. -/
  | closing (id : Id) (cursor : Nat)
  /-- It is no longer counted, and still holds the mutex of the entry. -/
  | decremented (id : Id) (cursor : Nat)
  /-- It was the last, and is about to erase the entry. -/
  | unlocked (id : Id) (cursor : Nat)
  /-- It is done with the entry, and still has the guard mutex. -/
  | cleaned
  deriving DecidableEq

namespace Phase

variable {Id : Type}

/-- The id of a guard that has a cursor, and the cursor. -/
def cursor : Phase Id → Option (Id × Nat)
  | emplaced id cursor | entered id cursor | waiting id cursor | holding id cursor | closing id cursor
  | decremented id cursor | unlocked id cursor => some (id, cursor)
  | absent | guardLocked _ | cleaned => none

/-- The entry whose mutex it holds. -/
def held : Phase Id → Option (Id × Nat)
  | holding id cursor | closing id cursor | decremented id cursor => some (id, cursor)
  | absent | guardLocked _ | emplaced _ _ | entered _ _ | waiting _ _ | unlocked _ _ | cleaned => none

/-- It has the guard mutex. -/
def LocksGuard : Phase Id → Prop
  | guardLocked _ | emplaced _ _ | entered _ _ | closing _ _ | decremented _ _ | unlocked _ _ | cleaned =>
    True
  | absent | waiting _ _ | holding _ _ => False

/-- It waits on the entry of this id or holds it: from the raising of the counter to its lowering. -/
def AtId (id : Id) : Phase Id → Prop
  | entered id' _ | waiting id' _ | holding id' _ | closing id' _ => id' = id
  | absent | guardLocked _ | emplaced _ _ | decremented _ _ | unlocked _ _ | cleaned => False

/-- It is between two steps that belong together: `emplace` and the raising of the counter, or the lowering
of the counter and the end of `erase`. -/
def Between (id : Id) : Phase Id → Prop
  | emplaced id' _ | decremented id' _ | unlocked id' _ => id' = id
  | absent | guardLocked _ | entered _ _ | waiting _ _ | holding _ _ | closing _ _ | cleaned => False

variable {p : Phase Id} {id : Id}

theorem cursor_of_held {entry : Id × Nat} (h : p.held = some entry) : p.cursor = some entry := by
  cases p <;> first | exact h | cases h

/-- Whoever has a cursor is at the entry, or between two steps. -/
theorem exists_cursor_iff : (∃ c, p.cursor = some (id, c)) ↔ p.AtId id ∨ p.Between id := by
  cases p <;> simp [cursor, AtId, Between]

theorem Between.locksGuard (h : p.Between id) : p.LocksGuard := by
  cases p with
  | emplaced | decremented | unlocked => trivial
  | absent | guardLocked | entered | waiting | holding | closing | cleaned => exact h.elim

end Phase

/-- A relation with its guards. -/
structure Guards (Id G : Type) where
  /-- `rel_`: where the entry of an id is. -/
  rel : Id → Option Nat
  entries : Nat → Option (Entry G)
  nextEntry : Nat
  guardMutex : Option G
  phase : G → Phase Id

/-- What a guard can do next. -/
inductive GuardOp (Id G : Type) where
  | lockGuard (g : G) (id : Id)
  | emplace (g : G)
  | increment (g : G)
  | unlockGuard (g : G)
  | lockEntry (g : G)
  | lockGuardAgain (g : G)
  | decrement (g : G)
  | unlockEntry (g : G)
  | erase (g : G)
  | release (g : G)

namespace Guards

variable {Id G : Type}

section Step

variable [DecidableEq Id] [DecidableEq G]

/-- No entry and no guard. -/
def init : Guards Id G := ⟨fun _ => none, fun _ => none, 0, none, fun _ => .absent⟩

/-- `rel_->emplace(low_id, Entry{0, ...}).first`. -/
def emplace (s : Guards Id G) (id : Id) : Guards Id G × Nat :=
  match s.rel id with
  | some cursor => (s, cursor)
  | none =>
    ({ s with
        rel := Function.update s.rel id (some s.nextEntry)
        entries := Function.update s.entries s.nextEntry (some ⟨0, none⟩)
        nextEntry := s.nextEntry + 1 }, s.nextEntry)

def setPhase (s : Guards Id G) (guardMutex : Option G) (g : G) (p : Phase Id) : Guards Id G :=
  { s with guardMutex := guardMutex, phase := Function.update s.phase g p }

def setEntry (s : Guards Id G) (cursor : Nat) (e : Entry G) (g : G) (p : Phase Id) : Guards Id G :=
  { s with entries := Function.update s.entries cursor (some e)
           phase := Function.update s.phase g p }

/-- `rel_->erase(rel_cursor_)`. -/
def erase (s : Guards Id G) (id : Id) (cursor : Nat) : Guards Id G :=
  { s with rel := Function.update s.rel id none
           entries := Function.update s.entries cursor none }

/-- One step of a guard: nothing if it cannot make it, which for a mutex is that it is locked. A
cursor that is bad is undefined. -/
def step (s : Guards Id G) : GuardOp Id G → Option (Guards Id G)
  | .lockGuard g id =>
    if s.guardMutex = none ∧ s.phase g = .absent then some (s.setPhase (some g) g (.guardLocked id))
    else none
  | .emplace g =>
    match s.phase g with
    | .guardLocked id =>
      let (s, cursor) := s.emplace id
      some (s.setPhase s.guardMutex g (.emplaced id cursor))
    | _ => none
  | .increment g =>
    match s.phase g with
    | .emplaced id cursor => do
      let e ← s.entries cursor
      return s.setEntry cursor { e with counter := e.counter + 1 } g (.entered id cursor)
    | _ => none
  | .unlockGuard g =>
    match s.phase g with
    | .entered id cursor => some (s.setPhase none g (.waiting id cursor))
    | _ => none
  | .lockEntry g =>
    match s.phase g with
    | .waiting id cursor => do
      let e ← s.entries cursor
      if e.mutex = none then some (s.setEntry cursor { e with mutex := some g } g (.holding id cursor))
      else none
    | _ => none
  | .lockGuardAgain g =>
    match s.phase g with
    | .holding id cursor =>
      if s.guardMutex = none then some (s.setPhase (some g) g (.closing id cursor)) else none
    | _ => none
  | .decrement g =>
    match s.phase g with
    | .closing id cursor => do
      let e ← s.entries cursor
      return s.setEntry cursor { e with counter := e.counter - 1 } g (.decremented id cursor)
    | _ => none
  -- `entry_lock_` is unlocked by `OnNoWaiters`, or else by its destructor, in front of `guard_lock_`.
  | .unlockEntry g =>
    match s.phase g with
    | .decremented id cursor => do
      let e ← s.entries cursor
      return s.setEntry cursor { e with mutex := none } g
        (if e.counter = 0 then .unlocked id cursor else .cleaned)
    | _ => none
  | .erase g =>
    match s.phase g with
    | .unlocked id cursor => do
      let _ ← s.entries cursor
      return (s.setPhase s.guardMutex g .cleaned).erase id cursor
    | _ => none
  | .release g => if s.phase g = .cleaned then some (s.setPhase none g .absent) else none

end Step

/-- `GetEntryCount`. -/
def getEntryCount (s : Guards Id G) (id : Id) : UInt32 :=
  match (s.rel id).bind s.entries with
  | some e => e.counter
  | none => 0

/-- **What guards are for.** There is an entry for an id exactly if its counter is positive, but for the
moments when a guard of the id is between two of its steps. The counter is the number of guards of the id that
wait or hold, counted from the raising to the lowering. One of them at most holds the mutex of the entry, and
the entry that a guard has a cursor to, that it waits on or holds, is there. -/
structure Exclusive (s : Guards Id G) : Prop where
  exists_iff : ∀ id, (s.rel id).isSome ↔ 0 < s.getEntryCount id ∨ ∃ g, (s.phase g).Between id
  count : ∀ id, ((s.getEntryCount id).toNat : ℕ∞) = tally (Phase.AtId id) s.phase
  exclusive : ∀ id g g' c c', (s.phase g).held = some (id, c) → (s.phase g').held = some (id, c') →
    g = g'
  present : ∀ g id c, (s.phase g).cursor = some (id, c) → s.rel id = some c ∧ (s.entries c).isSome

/-- There are fewer than 2^32 guards of every id. -/
def Few (s : Guards Id G) : Prop := ∀ id, tally (Phase.AtId id) s.phase < (2 ^ 32 : ℕ)

/-- The relation, its entries and the mutexes as the guards are to them. An entry that no guard is
at may be there. -/
structure Consistent (s : Guards Id G) : Prop where
  guardMutex : ∀ g, s.guardMutex = some g ↔ (s.phase g).LocksGuard
  entry : ∀ id c, s.rel id = some c → ∃ e, s.entries c = some e ∧
    (e.counter.toNat : ℕ∞) = tally (Phase.AtId id) s.phase
  fresh : ∀ c, s.nextEntry ≤ c → s.entries c = none
  inj : ∀ id id' c, s.rel id = some c → s.rel id' = some c → id = id'
  cursor : ∀ g id c, (s.phase g).cursor = some (id, c) → s.rel id = some c
  mutex : ∀ c e, s.entries c = some e → ∀ g, e.mutex = some g ↔ ∃ id, (s.phase g).held = some (id, c)

/-- **What every step keeps**: and no entry is there without a guard that has a cursor to it, and none is erased
while a guard is at it. -/
structure Inv (s : Guards Id G) : Prop where
  consistent : s.Consistent
  occupied : ∀ id c, s.rel id = some c → ∃ g, (s.phase g).cursor = some (id, c)
  last : ∀ g id c, s.phase g = .unlocked id c → tally (Phase.AtId id) s.phase = 0

namespace Consistent

variable {s : Guards Id G}

theorem lt (h : s.Consistent) {id : Id} {c : Nat} (hc : s.rel id = some c) : c < s.nextEntry := by
  by_contra hge
  obtain ⟨e, he, -⟩ := h.entry id c hc
  rw [h.fresh c (by omega)] at he
  cases he

theorem locksGuard_inj (h : s.Consistent) {g g' : G} (hg : (s.phase g).LocksGuard)
    (hg' : (s.phase g').LocksGuard) : g = g' :=
  Option.some_inj.mp (((h.guardMutex g).mpr hg).symm.trans ((h.guardMutex g').mpr hg'))

section Phases

variable [DecidableEq G]

theorem apply_update {α : Type} {f : Phase Id → α} {φ : G → Phase Id} {g : G} {p : Phase Id}
    (hsame : f (φ g) = f p) (g' : G) : f (Function.update φ g p g') = f (φ g') := by
  rw [Function.update_apply]
  split
  · rename_i heq
    rw [heq, hsame]
  · rfl

theorem mutex_update (h : s.Consistent) {g : G} {p : Phase Id} (hheld : (s.phase g).held = p.held) {c : Nat}
    {e : Entry G} (he : s.entries c = some e) (g' : G) :
    e.mutex = some g' ↔ ∃ id, (Function.update s.phase g p g').held = some (id, c) := by
  have hsame := @apply_update _ _ _ _ Phase.held s.phase g p hheld g'
  rw [h.mutex c e he, hsame]

/-- A step that leaves the entries alone. -/
theorem setPhase (h : s.Consistent) {m : Option G} {g : G} {p : Phase Id}
    (hm : ∀ g', m = some g' ↔ (Function.update s.phase g p g').LocksGuard)
    (hcursor : ∀ id c, p.cursor = some (id, c) → s.rel id = some c)
    (hat : ∀ id, (s.phase g).AtId id ↔ p.AtId id) (hheld : (s.phase g).held = p.held) :
    (s.setPhase m g p).Consistent := by
  refine ⟨hm, fun id c hc => ?_, h.fresh, h.inj, fun g' id c hc => ?_, fun c e he g' => ?_⟩
  · obtain ⟨e, he, hcount⟩ := h.entry id c hc
    exact ⟨e, he, hcount.trans (tally_update_of_iff (hat id)).symm⟩
  · have hc : (Function.update s.phase g p g').cursor = some (id, c) := hc
    rw [Function.update_apply] at hc
    split at hc
    · exact hcursor id c hc
    · exact h.cursor g' id c hc
  · exact h.mutex_update hheld he g'

theorem lockGuard_iff (h : s.Consistent) {g : G} {p : Phase Id} (hfree : s.guardMutex = none)
    (hp : p.LocksGuard) (g' : G) : some g = some g' ↔ (Function.update s.phase g p g').LocksGuard := by
  by_cases heq : g' = g
  · subst heq
    exact iff_of_true rfl (by rwa [Function.update_self])
  · rw [Function.update_of_ne heq, ← h.guardMutex, hfree]
    exact iff_of_false (fun hsome => heq (Option.some_inj.mp hsome).symm) (by simp)

theorem keepGuard_iff (h : s.Consistent) {g : G} {p : Phase Id} (hp : (s.phase g).LocksGuard ↔ p.LocksGuard)
    (g' : G) : s.guardMutex = some g' ↔ (Function.update s.phase g p g').LocksGuard := by
  by_cases heq : g' = g
  · subst heq
    rw [Function.update_self, h.guardMutex, hp]
  · rw [Function.update_of_ne heq, h.guardMutex]

theorem unlockGuard_iff (h : s.Consistent) {g : G} {p : Phase Id} (hlocked : (s.phase g).LocksGuard)
    (hp : ¬ p.LocksGuard) (g' : G) : none = some g' ↔ (Function.update s.phase g p g').LocksGuard := by
  refine iff_of_false (by simp) ?_
  by_cases heq : g' = g
  · subst heq
    rwa [Function.update_self]
  · rw [Function.update_of_ne heq]
    exact fun hg' => heq (h.locksGuard_inj hg' hlocked)

/-- **A step at an entry**: its counter goes with the guard, and so does its mutex. -/
theorem setEntry (h : s.Consistent) {g : G} {p : Phase Id} {id : Id} {c : Nat} {e : Entry G}
    (hat : (s.phase g).cursor = some (id, c)) (hguard : (s.phase g).LocksGuard ↔ p.LocksGuard)
    (hcursor : ∀ entry, p.cursor = some entry → entry = (id, c))
    (hcount : (e.counter.toNat : ℕ∞) = tally (Phase.AtId id) (Function.update s.phase g p))
    (hmutex : ∀ g', e.mutex = some g' ↔ ∃ id, (Function.update s.phase g p g').held = some (id, c)) :
    (s.setEntry c e g p).Consistent := by
  have hc := h.cursor g id c hat
  have hother : ∀ {q : Phase Id}, (∀ entry, q.cursor = some entry → entry = (id, c)) → ∀ {id'}, id' ≠ id →
      ¬ q.AtId id' := by
    intro q hq id' hid hq'
    obtain ⟨c', hc'⟩ := Phase.exists_cursor_iff.mpr (.inl hq')
    cases hq _ hc'
    exact hid rfl
  have hbefore : ∀ entry, (s.phase g).cursor = some entry → entry = (id, c) := fun entry hentry =>
    Option.some_inj.mp (hentry.symm.trans hat)
  refine ⟨h.keepGuard_iff hguard, fun id' c' hc' => ?_, fun c' hc' => ?_, h.inj, fun g' id' c' hg' => ?_,
    fun c' e' he' g' => ?_⟩
  · by_cases hid : id' = id
    · subst hid
      cases hc.symm.trans hc'
      exact ⟨e, Function.update_self .., hcount⟩
    · obtain ⟨e', he', hcount'⟩ := h.entry id' c' hc'
      have hne : c' ≠ c := by
        rintro rfl
        exact hid (h.inj id' id c' hc' hc)
      exact ⟨e', (Function.update_of_ne hne ..).trans he', hcount'.trans
        (tally_update_of_iff (iff_of_false (hother hbefore hid) (hother hcursor hid))).symm⟩
  · have hne : c' ≠ c := by
      rintro rfl
      exact absurd (h.lt hc) (Nat.not_lt_of_le hc')
    exact (Function.update_of_ne hne ..).trans (h.fresh c' hc')
  · have hg' : (Function.update s.phase g p g').cursor = some (id', c') := hg'
    rw [Function.update_apply] at hg'
    split at hg'
    · cases hcursor _ hg'
      exact hc
    · exact h.cursor g' id' c' hg'
  · by_cases hce : c' = c
    · subst hce
      cases (Function.update_self ..).symm.trans he'
      exact hmutex g'
    · rw [h.mutex c' e' ((Function.update_of_ne hce ..).symm.trans he')]
      refine exists_congr fun id' => ?_
      show _ ↔ (Function.update s.phase g p g').held = some (id', c')
      rw [Function.update_apply]
      split
      · -- Neither before nor after does this guard hold another entry.
        rename_i heq
        rw [heq]
        refine iff_of_false (fun hheld => ?_) fun hheld => ?_
        · cases hbefore _ (Phase.cursor_of_held hheld)
          exact hce rfl
        · cases hcursor _ (Phase.cursor_of_held hheld)
          exact hce rfl
      · rfl

end Phases

section Entries

variable [DecidableEq Id]

/-- An entry without guards comes to the relation, where the id has none. -/
theorem emplace (h : s.Consistent) (id : Id) :
    (s.emplace id).1.Consistent ∧ (s.emplace id).1.rel id = some (s.emplace id).2 ∧
      (s.emplace id).1.phase = s.phase ∧
      ∀ id', id' ≠ id → (s.emplace id).1.rel id' = s.rel id' := by
  rw [Guards.emplace]
  cases hc : s.rel id with
  | some c => exact ⟨h, hc, rfl, fun _ _ => rfl⟩
  | none =>
    have hnone : tally (Phase.AtId id) s.phase = 0 := by
      rw [tally_eq_zero_iff]
      intro g hg
      obtain ⟨c, hcur⟩ := Phase.exists_cursor_iff.mpr (.inl hg)
      rw [h.cursor g id c hcur] at hc
      cases hc
    refine ⟨⟨h.guardMutex, fun id' c hc' => ?_, fun c hge => ?_, fun id₁ id₂ c h₁ h₂ => ?_,
      fun g id' c hcur => ?_, fun c e he g => ?_⟩, Function.update_self .., rfl,
      fun id' hid => Function.update_of_ne hid ..⟩
    · obtain ⟨rfl, hnew⟩ | ⟨-, hold⟩ := update_eq_some_iff.mp hc'
      · cases hnew
        exact ⟨⟨0, none⟩, Function.update_self .., by rw [hnone]; rfl⟩
      · obtain ⟨e, he, hcount⟩ := h.entry id' c hold
        exact ⟨e, (Function.update_of_ne (Nat.ne_of_lt (h.lt hold)) ..).trans he, hcount⟩
    · have hge : s.nextEntry + 1 ≤ c := hge
      exact (Function.update_of_ne (by omega) ..).trans (h.fresh c (by omega))
    · obtain ⟨rfl, hnew₁⟩ | ⟨-, hold₁⟩ := update_eq_some_iff.mp h₁ <;>
        obtain ⟨rfl, hnew₂⟩ | ⟨-, hold₂⟩ := update_eq_some_iff.mp h₂
      · rfl
      · cases hnew₁
        exact absurd (h.lt hold₂) (Nat.lt_irrefl _)
      · cases hnew₂
        exact absurd (h.lt hold₁) (Nat.lt_irrefl _)
      · exact h.inj id₁ id₂ c hold₁ hold₂
    · have hthere := h.cursor g id' c hcur
      refine update_eq_some_iff.mpr (.inr ⟨?_, hthere⟩)
      rintro rfl
      rw [hc] at hthere
      cases hthere
    · obtain ⟨rfl, hnew⟩ | ⟨-, hold⟩ := update_eq_some_iff.mp he
      · cases hnew
        refine iff_of_false (by simp) ?_
        rintro ⟨id', hheld⟩
        exact absurd (h.lt (h.cursor g id' _ (Phase.cursor_of_held hheld))) (Nat.lt_irrefl _)
      · exact h.mutex c e hold g

/-- An entry that no guard has a cursor to goes. -/
theorem erase (h : s.Consistent) {id : Id} {c : Nat} (hc : s.rel id = some c)
    (hnone : ∀ g c', (s.phase g).cursor ≠ some (id, c')) : (s.erase id c).Consistent := by
  have hrel : ∀ {id' c'}, Function.update s.rel id none id' = some c' →
      id' ≠ id ∧ s.rel id' = some c' := fun hc' =>
    (update_eq_some_iff.mp hc').resolve_left fun hnew => by cases hnew.2
  have hentries : ∀ {c' e}, Function.update s.entries c none c' = some e →
      s.entries c' = some e := fun he =>
    ((update_eq_some_iff.mp he).resolve_left fun hnew => by cases hnew.2).2
  refine ⟨h.guardMutex, fun id' c' hc' => ?_, fun c' hge => ?_, fun id₁ id₂ c' h₁ h₂ => ?_,
    fun g id' c' hcur => ?_, fun c' e he => h.mutex c' e (hentries he)⟩
  · obtain ⟨hid, hwas⟩ := hrel hc'
    have hne : c' ≠ c := by
      rintro rfl
      exact hid (h.inj id' id c' hwas hc)
    obtain ⟨e, he, hcount⟩ := h.entry id' c' hwas
    exact ⟨e, (Function.update_of_ne hne ..).trans he, hcount⟩
  · show Function.update s.entries c none c' = none
    rw [Function.update_apply]
    split
    · rfl
    · exact h.fresh c' hge
  · exact h.inj id₁ id₂ c' (hrel h₁).2 (hrel h₂).2
  · have hid : id' ≠ id := by
      rintro rfl
      exact hnone g c' hcur
    exact (Function.update_of_ne hid ..).trans (h.cursor g id' c' hcur)

end Entries

end Consistent

section Phases

variable [DecidableEq G] {s : Guards Id G} {g : G} {p : Phase Id}

/-- No entry is left alone by a guard that keeps its cursor. -/
theorem Inv.occupied_of_eq (h : s.Inv) (hcursor : (s.phase g).cursor = p.cursor) {id : Id} {c : Nat}
    (hc : s.rel id = some c) : ∃ g', (Function.update s.phase g p g').cursor = some (id, c) := by
  obtain ⟨g', hg'⟩ := h.occupied id c hc
  exact ⟨g', (Consistent.apply_update hcursor g').trans hg'⟩

/-- Nor is one left alone by a guard that had no cursor to it. -/
theorem Inv.occupied_of_ne (h : s.Inv) {id : Id} {c : Nat} (hne : (s.phase g).cursor ≠ some (id, c))
    (hc : s.rel id = some c) : ∃ g', (Function.update s.phase g p g').cursor = some (id, c) := by
  obtain ⟨g', hg'⟩ := h.occupied id c hc
  refine ⟨g', ?_⟩
  rwa [Function.update_of_ne]
  rintro rfl
  exact hne hg'

omit [DecidableEq G] in
/-- Nobody is about to erase an entry while a guard that is not has the guard mutex. -/
theorem Consistent.inv_of_locksGuard (h : s.Consistent) (hphase : s.phase g = p) (hlocked : p.LocksGuard)
    (hnot : ∀ id c, p ≠ .unlocked id c)
    (hoccupied : ∀ id c, s.rel id = some c → ∃ g, (s.phase g).cursor = some (id, c)) : s.Inv := by
  refine ⟨h, hoccupied, fun g' id c hg' => ?_⟩
  have hlocked' : (s.phase g').LocksGuard := by
    rw [hg']
    trivial
  cases h.locksGuard_inj hlocked' (hphase ▸ hlocked)
  exact absurd (hphase.symm.trans hg') (hnot id c)

theorem Inv.lockGuard (h : s.Inv) (hfree : s.guardMutex = none) (hp : p.LocksGuard)
    (hnot : ∀ id c, p ≠ .unlocked id c) (hcursor : (s.phase g).cursor = p.cursor)
    (hat : ∀ id, (s.phase g).AtId id ↔ p.AtId id) (hheld : (s.phase g).held = p.held) :
    (s.setPhase (some g) g p).Inv := by
  have hcons : (s.setPhase (some g) g p).Consistent :=
    h.consistent.setPhase (h.consistent.lockGuard_iff hfree hp)
      (fun id c hp => h.consistent.cursor g id c (hcursor.trans hp)) hat hheld
  exact hcons.inv_of_locksGuard (Function.update_self ..) hp hnot fun id c hc => h.occupied_of_eq hcursor hc

/-- The guard mutex is given back, and nothing else. -/
theorem Inv.unlockGuard (h : s.Inv) (hlocked : (s.phase g).LocksGuard) (hp : ¬ p.LocksGuard)
    (hcursor : (s.phase g).cursor = p.cursor) (hat : ∀ id, (s.phase g).AtId id ↔ p.AtId id)
    (hheld : (s.phase g).held = p.held) : (s.setPhase none g p).Inv := by
  have hcons : (s.setPhase none g p).Consistent :=
    h.consistent.setPhase (h.consistent.unlockGuard_iff hlocked hp)
      (fun id c hp => h.consistent.cursor g id c (hcursor.trans hp)) hat hheld
  refine ⟨hcons, fun id c hc => h.occupied_of_eq hcursor hc, fun g' id c hg' => ?_⟩
  have hsome : none = some g' := (hcons.guardMutex g').mpr (by rw [hg']; trivial)
  cases hsome

end Phases

theorem Inv.of_init : (init : Guards Id G).Inv where
  consistent :=
    { guardMutex := fun g => by simp [init, Phase.LocksGuard]
      entry := by rintro id c ⟨⟩
      fresh := fun _ _ => rfl
      inj := by rintro id id' c ⟨⟩
      cursor := by rintro g id c ⟨⟩
      mutex := by rintro c e ⟨⟩ }
  occupied := by rintro id c ⟨⟩
  last := by rintro g id c ⟨⟩

theorem Inv.exclusive {s : Guards Id G} (h : s.Inv) : s.Exclusive := by
  have hcount : ∀ id, ((s.getEntryCount id).toNat : ℕ∞) = tally (Phase.AtId id) s.phase := by
    intro id
    rw [getEntryCount]
    cases hrel : s.rel id with
    | none =>
      refine (tally_eq_zero_iff.mpr fun g hg => ?_).symm
      obtain ⟨c, hcur⟩ := Phase.exists_cursor_iff.mpr (.inl hg)
      rw [h.consistent.cursor g id c hcur] at hrel
      cases hrel
    | some c =>
      obtain ⟨e, he, hcount⟩ := h.consistent.entry id c hrel
      rw [Option.bind_some, he]
      exact hcount
  refine ⟨fun id => ?_, hcount, fun id g g' c c' hg hg' => ?_, fun g id c hcur => ?_⟩
  · have hpos : 0 < s.getEntryCount id ↔ ∃ g, (s.phase g).AtId id := by
      rw [UInt32.lt_iff_toNat_lt, UInt32.toNat_zero, Nat.pos_iff_ne_zero, ← Nat.cast_ne_zero (R := ℕ∞),
        hcount, Ne, tally_eq_zero_iff, not_forall_not]
    have hcursor : (s.rel id).isSome ↔ ∃ g c, (s.phase g).cursor = some (id, c) := by
      rw [Option.isSome_iff_exists]
      constructor
      · rintro ⟨c, hc⟩
        obtain ⟨g, hg⟩ := h.occupied id c hc
        exact ⟨g, c, hg⟩
      · rintro ⟨g, c, hg⟩
        exact ⟨c, h.consistent.cursor g id c hg⟩
    rw [hcursor, hpos, ← exists_or]
    exact exists_congr fun g => Phase.exists_cursor_iff
  · have hrel := h.consistent.cursor g id c (Phase.cursor_of_held hg)
    cases hrel.symm.trans (h.consistent.cursor g' id c' (Phase.cursor_of_held hg'))
    obtain ⟨e, he, -⟩ := h.consistent.entry id c hrel
    have hthis := (h.consistent.mutex c e he g).mpr ⟨id, hg⟩
    have hthat := (h.consistent.mutex c e he g').mpr ⟨id, hg'⟩
    exact Option.some_inj.mp (hthis.symm.trans hthat)
  · have hrel := h.consistent.cursor g id c hcur
    obtain ⟨e, he, -⟩ := h.consistent.entry id c hrel
    exact ⟨hrel, Option.isSome_iff_exists.mpr ⟨e, he⟩⟩

section Steps

variable [DecidableEq G] {s s' : Guards Id G} {g : G} {id : Id} {c : Nat} {e : Entry G}

/-- **Raising the counter**, which does not wrap: with this guard there are still fewer than 2^32. -/
theorem Inv.increment (h : s.Inv) (hphase : s.phase g = .emplaced id c) (he : s.entries c = some e)
    (hfew : (s.setEntry c { e with counter := e.counter + 1 } g (.entered id c)).Few) :
    (s.setEntry c { e with counter := e.counter + 1 } g (.entered id c)).Inv := by
  have hcursor : (s.phase g).cursor = some (id, c) := by rw [hphase]; rfl
  have hadd : tally (Phase.AtId id) (Function.update s.phase g (.entered id c)) =
      tally (Phase.AtId id) s.phase + 1 := tally_update_add (by rw [hphase]; exact fun h => h) rfl
  obtain ⟨e', he', hcount⟩ := h.consistent.entry id c (h.consistent.cursor g id c hcursor)
  cases he.symm.trans he'
  have hlt : e.counter.toNat + 1 < 2 ^ 32 := by
    have hbound : tally (Phase.AtId id) (Function.update s.phase g (.entered id c)) <
        (2 ^ 32 : ℕ) := hfew id
    rw [hadd, ← hcount] at hbound
    exact_mod_cast hbound
  have hcounter : (e.counter + 1).toNat = e.counter.toNat + 1 := by
    rw [UInt32.toNat_add]
    exact Nat.mod_eq_of_lt hlt
  have hcons : (s.setEntry c { e with counter := e.counter + 1 } g (.entered id c)).Consistent := by
    refine h.consistent.setEntry hcursor ?_ ?_ ?_ fun g' => ?_
    · rw [hphase]
      exact Iff.rfl
    · rintro entry ⟨⟩
      rfl
    · rw [hadd, ← hcount, hcounter]
      rfl
    · exact h.consistent.mutex_update (by rw [hphase]; rfl) he g'
  exact hcons.inv_of_locksGuard (Function.update_self ..) trivial (by rintro _ _ ⟨⟩) fun id' c' hc' =>
    h.occupied_of_eq (by rw [hphase]; rfl) hc'

/-- **Locking the entry**: its mutex is free, and so it is nobody's. -/
theorem Inv.lockEntry (h : s.Inv) (hphase : s.phase g = .waiting id c) (he : s.entries c = some e)
    (hfree : e.mutex = none) : (s.setEntry c { e with mutex := some g } g (.holding id c)).Inv := by
  have hcursor : (s.phase g).cursor = some (id, c) := by rw [hphase]; rfl
  have htally : ∀ id', tally (Phase.AtId id') (Function.update s.phase g (.holding id c)) =
      tally (Phase.AtId id') s.phase := fun id' => tally_update_of_iff (by rw [hphase]; exact Iff.rfl)
  obtain ⟨e', he', hcount⟩ := h.consistent.entry id c (h.consistent.cursor g id c hcursor)
  cases he.symm.trans he'
  refine ⟨h.consistent.setEntry hcursor ?_ ?_ ?_ fun g' => ?_, fun id' c' hc' => ?_, fun g' id' c' hg' => ?_⟩
  · rw [hphase]
    exact Iff.rfl
  · rintro entry ⟨⟩
    rfl
  · rw [htally, ← hcount]
  · rw [Function.update_apply]
    split
    · rename_i heq
      exact iff_of_true (by rw [heq]) ⟨id, rfl⟩
    · rename_i hne
      refine iff_of_false (fun heq => hne (Option.some_inj.mp heq).symm) ?_
      rw [← h.consistent.mutex c e he g', hfree]
      simp
  · exact h.occupied_of_eq (by rw [hphase]; rfl) hc'
  · have hg' : Function.update s.phase g (.holding id c) g' = .unlocked id' c' := hg'
    rw [Function.update_apply] at hg'
    split at hg'
    · cases hg'
    · exact (htally id').trans (h.last g' id' c' hg')

/-- **Lowering the counter**, which does not wrap: it counts this guard at least. -/
theorem Inv.decrement (h : s.Inv) (hphase : s.phase g = .closing id c) (he : s.entries c = some e) :
    (s.setEntry c { e with counter := e.counter - 1 } g (.decremented id c)).Inv := by
  have hcursor : (s.phase g).cursor = some (id, c) := by rw [hphase]; rfl
  have hsub : tally (Phase.AtId id) (Function.update s.phase g (.decremented id c)) + 1 =
      tally (Phase.AtId id) s.phase := tally_update_sub (by rw [hphase]; rfl) fun h => h
  obtain ⟨e', he', hcount⟩ := h.consistent.entry id c (h.consistent.cursor g id c hcursor)
  cases he.symm.trans he'
  have hcounter : ((e.counter - 1).toNat : ℕ∞) =
      tally (Phase.AtId id) (Function.update s.phase g (.decremented id c)) := by
    obtain ⟨m, hm, hleft⟩ := exists_pred (hcount.trans hsub.symm)
    have hle : (1 : UInt32) ≤ e.counter := UInt32.le_iff_toNat_le.mpr (hm ▸ Nat.succ_pos m)
    rw [UInt32.toNat_sub_of_le _ _ hle, hm]
    exact hleft
  have hcons : (s.setEntry c { e with counter := e.counter - 1 } g (.decremented id c)).Consistent := by
    refine h.consistent.setEntry hcursor ?_ ?_ hcounter fun g' => ?_
    · rw [hphase]
      exact Iff.rfl
    · rintro entry ⟨⟩
      rfl
    · exact h.consistent.mutex_update (by rw [hphase]; rfl) he g'
  exact hcons.inv_of_locksGuard (Function.update_self ..) trivial (by rintro _ _ ⟨⟩) fun id' c' hc' =>
    h.occupied_of_eq (by rw [hphase]; rfl) hc'

/-- **Unlocking the entry**: if the counter is zero, then no other guard is at it, and if it is not, then there
is another one that has a cursor. -/
theorem Inv.unlockEntry (h : s.Inv) (hphase : s.phase g = .decremented id c) (he : s.entries c = some e) :
    (s.setEntry c { e with mutex := none } g (if e.counter = 0 then .unlocked id c else .cleaned)).Inv := by
  have hcursor : (s.phase g).cursor = some (id, c) := by rw [hphase]; rfl
  obtain ⟨e', he', hcount⟩ := h.consistent.entry id c (h.consistent.cursor g id c hcursor)
  cases he.symm.trans he'
  have hcons : ∀ p : Phase Id, p.LocksGuard → (∀ entry, p.cursor = some entry → entry = (id, c)) →
      p.held = none → (∀ id', ¬ p.AtId id') → (s.setEntry c { e with mutex := none } g p).Consistent := by
    intro p hp hcur hheld hat
    refine h.consistent.setEntry hcursor ?_ hcur ?_ fun g' => ?_
    · rw [hphase]
      exact iff_of_true trivial hp
    · rw [tally_update_of_iff (by rw [hphase]; exact iff_of_false (fun h => h) (hat id)), ← hcount]
    · refine iff_of_false (by simp) ?_
      rintro ⟨id', hg'⟩
      rw [Function.update_apply] at hg'
      split at hg'
      · rw [hheld] at hg'
        cases hg'
      · rename_i hne
        have hthis := (h.consistent.mutex c e he g).mpr ⟨id, by rw [hphase]; rfl⟩
        have hthat := (h.consistent.mutex c e he g').mpr ⟨id', hg'⟩
        exact hne (Option.some_inj.mp (hthat.symm.trans hthis))
  split
  · rename_i hzero
    have hcons := hcons (.unlocked id c) trivial (by rintro entry ⟨⟩; rfl) rfl fun id' h => h
    refine ⟨hcons, fun id' c' hc' => h.occupied_of_eq (by rw [hphase]; rfl) hc', fun g' id' c' hg' => ?_⟩
    have hg : (s.setEntry c { e with mutex := none } g (.unlocked id c)).phase g = .unlocked id c :=
      Function.update_self ..
    cases hcons.locksGuard_inj (g := g') (by rw [hg']; trivial) (by rw [hg]; trivial)
    cases hg.symm.trans hg'
    obtain ⟨e', he', hcount'⟩ := hcons.entry id c (h.consistent.cursor g id c hcursor)
    cases (Function.update_self ..).symm.trans he'
    rw [← hcount', hzero]
    rfl
  · rename_i hpos
    have hcons := hcons .cleaned trivial (by rintro entry ⟨⟩) rfl fun id' h => h
    refine hcons.inv_of_locksGuard (Function.update_self ..) trivial (by rintro _ _ ⟨⟩) fun id' c' hc' => ?_
    by_cases heq : (s.phase g).cursor = some (id', c')
    · cases hcursor.symm.trans heq
      -- The counter counts someone, and this guard it does not.
      have hsome : ∃ g', (s.phase g').AtId id := by
        by_contra hnone
        have hzero : tally (Phase.AtId id) s.phase = 0 := tally_eq_zero_iff.mpr (not_exists.mp hnone)
        rw [hzero] at hcount
        exact hpos (UInt32.toNat_inj.mp (by exact_mod_cast hcount))
      obtain ⟨g', hat⟩ := hsome
      have hne : g' ≠ g := by
        rintro rfl
        rw [hphase] at hat
        exact hat
      obtain ⟨c', hcur⟩ := Phase.exists_cursor_iff.mpr (.inl hat)
      cases (h.consistent.cursor g' id c' hcur).symm.trans hc'
      exact ⟨g', by rw [← hcur]; exact congrArg _ (Function.update_of_ne hne ..)⟩
    · exact h.occupied_of_ne heq hc'

end Steps

section Relation

variable [DecidableEq Id] [DecidableEq G] {s s' : Guards Id G} {g : G} {id : Id} {c : Nat}

/-- **Emplacing**: the entry is made if there is none, and the guard has a cursor to it. -/
theorem Inv.emplace (h : s.Inv) (hphase : s.phase g = .guardLocked id) :
    ((s.emplace id).1.setPhase (s.emplace id).1.guardMutex g (.emplaced id (s.emplace id).2)).Inv := by
  obtain ⟨hcons, hc, hsame, hrel⟩ := h.consistent.emplace id
  generalize s.emplace id = made at hcons hc hsame hrel
  obtain ⟨s₁, c⟩ := made
  dsimp only at hcons hc hsame hrel
  rw [← hsame] at hphase
  have hset : (s₁.setPhase s₁.guardMutex g (.emplaced id c)).Consistent := by
    refine hcons.setPhase (hcons.keepGuard_iff ?_) ?_ ?_ ?_
    · rw [hphase]
      exact Iff.rfl
    · rintro id' c' ⟨⟩
      exact hc
    · intro id'
      rw [hphase]
      exact Iff.rfl
    · rw [hphase]
      rfl
  refine hset.inv_of_locksGuard (Function.update_self ..) trivial (by rintro _ _ ⟨⟩) fun id' c' hc' => ?_
  by_cases hid : id' = id
  · subst hid
    cases hc.symm.trans hc'
    exact ⟨g, by simp [Guards.setPhase, Phase.cursor]⟩
  · show ∃ g', (Function.update s₁.phase g (.emplaced id c) g').cursor = some (id', c')
    rw [hsame]
    refine h.occupied_of_ne ?_ ((hrel id' hid).symm.trans hc')
    rw [← hsame, hphase]
    rintro ⟨⟩

/-- **Erasing**: nobody else has a cursor to the entry, as no guard waits on it or holds it, and none but this
one can be between two steps. -/
theorem Inv.erase (h : s.Inv) (hphase : s.phase g = .unlocked id c) :
    ((s.setPhase s.guardMutex g .cleaned).erase id c).Inv := by
  have hcursor : (s.phase g).cursor = some (id, c) := by rw [hphase]; rfl
  have hcons : (s.setPhase s.guardMutex g .cleaned).Consistent := by
    refine h.consistent.setPhase (h.consistent.keepGuard_iff ?_) ?_ ?_ ?_
    · rw [hphase]
      exact Iff.rfl
    · rintro id' c' ⟨⟩
    · intro id'
      rw [hphase]
      exact Iff.rfl
    · rw [hphase]
      rfl
  have hnone : ∀ g' c', ((s.setPhase s.guardMutex g .cleaned).phase g').cursor ≠ some (id, c') := by
    intro g' c' hcur
    have hcur : (Function.update s.phase g .cleaned g').cursor = some (id, c') := hcur
    rw [Function.update_apply] at hcur
    split at hcur
    · cases hcur
    · rename_i hne
      obtain hat | hbetween := Phase.exists_cursor_iff.mp ⟨c', hcur⟩
      · exact tally_eq_zero_iff.mp (h.last g id c hphase) g' hat
      · exact hne (h.consistent.locksGuard_inj hbetween.locksGuard (by rw [hphase]; trivial))
  refine (hcons.erase (h.consistent.cursor g id c hcursor) hnone).inv_of_locksGuard
    (Function.update_self ..) trivial (by rintro _ _ ⟨⟩) fun id' c' hc' => ?_
  obtain ⟨-, hnew⟩ | ⟨hid, hold⟩ := update_eq_some_iff.mp hc'
  · cases hnew
  · refine h.occupied_of_ne ?_ hold
    rw [hcursor]
    rintro ⟨⟩
    exact hid rfl

/-- **One step**, as long as there are fewer than 2^32 guards of every id after it. -/
theorem Inv.step (h : s.Inv) {op : GuardOp Id G} (hstep : s.step op = some s') (hfew : s'.Few) :
    s'.Inv := by
  cases op with
  | lockGuard g id =>
    simp only [Guards.step] at hstep
    split at hstep
    · rename_i hfree
      cases hstep
      obtain ⟨hfree, hphase⟩ := hfree
      exact h.lockGuard hfree trivial (by rintro _ _ ⟨⟩) (by rw [hphase]; rfl)
        (by rw [hphase]; exact fun _ => Iff.rfl) (by rw [hphase]; rfl)
    · cases hstep
  | emplace g =>
    simp only [Guards.step] at hstep
    split at hstep
    · rename_i id hphase
      cases hstep
      exact h.emplace hphase
    · cases hstep
  | increment g =>
    simp only [Guards.step] at hstep
    split at hstep
    · rename_i id c hphase
      obtain ⟨e, he, hstep⟩ := Option.bind_eq_some_iff.mp hstep
      cases hstep
      exact h.increment hphase he hfew
    · cases hstep
  | unlockGuard g =>
    simp only [Guards.step] at hstep
    split at hstep
    · rename_i id c hphase
      cases hstep
      exact h.unlockGuard (by rw [hphase]; trivial) (fun hlocked => hlocked) (by rw [hphase]; rfl)
        (by rw [hphase]; exact fun _ => Iff.rfl) (by rw [hphase]; rfl)
    · cases hstep
  | lockEntry g =>
    simp only [Guards.step] at hstep
    split at hstep
    · rename_i id c hphase
      obtain ⟨e, he, hstep⟩ := Option.bind_eq_some_iff.mp hstep
      split at hstep
      · rename_i hfree
        cases hstep
        exact h.lockEntry hphase he hfree
      · cases hstep
    · cases hstep
  | lockGuardAgain g =>
    simp only [Guards.step] at hstep
    split at hstep
    · rename_i id c hphase
      split at hstep
      · rename_i hfree
        cases hstep
        exact h.lockGuard hfree trivial (by rintro _ _ ⟨⟩) (by rw [hphase]; rfl)
          (by rw [hphase]; exact fun _ => Iff.rfl) (by rw [hphase]; rfl)
      · cases hstep
    · cases hstep
  | decrement g =>
    simp only [Guards.step] at hstep
    split at hstep
    · rename_i id c hphase
      obtain ⟨e, he, hstep⟩ := Option.bind_eq_some_iff.mp hstep
      cases hstep
      exact h.decrement hphase he
    · cases hstep
  | unlockEntry g =>
    simp only [Guards.step] at hstep
    split at hstep
    · rename_i id c hphase
      obtain ⟨e, he, hstep⟩ := Option.bind_eq_some_iff.mp hstep
      cases hstep
      exact h.unlockEntry hphase he
    · cases hstep
  | erase g =>
    simp only [Guards.step] at hstep
    split at hstep
    · rename_i id c hphase
      obtain ⟨e, he, hstep⟩ := Option.bind_eq_some_iff.mp hstep
      cases hstep
      exact h.erase hphase
    · cases hstep
  | release g =>
    simp only [Guards.step] at hstep
    split at hstep
    · rename_i hphase
      cases hstep
      exact h.unlockGuard (by rw [hphase]; trivial) (fun hlocked => hlocked) (by rw [hphase]; rfl)
        (by rw [hphase]; exact fun _ => Iff.rfl) (by rw [hphase]; rfl)
    · cases hstep

/-- **Guards of an id exclude one another**, whatever steps they come and go in, while there are
fewer than 2^32 of them. The run may end anywhere, so this is about every moment of it: also in the middle of a
constructor or of a destructor, with the guard mutex locked. -/
theorem run_exclusive {ops : List (GuardOp Id G)}
    (hfew : Along step (fun s op => ∀ s', s.step op = some s' → s'.Few) init ops)
    (hrun : runSteps step init ops = some s) : s.Exclusive :=
  (hfew.runSteps_inv (fun _ _ s' h hP hstep => Inv.step h hstep (hP s' hstep)) Inv.of_init
    hrun).exclusive

end Relation

/-- Two guards of an entry, one after the other: the first leaves it to the second, and the second takes it
away. -/
def turns : List (GuardOp Nat (Fin 2)) :=
  [.lockGuard 0 7, .emplace 0, .increment 0, .unlockGuard 0, .lockGuard 1 7, .emplace 1, .lockEntry 0,
    .increment 1, .unlockGuard 1, .lockGuardAgain 0, .decrement 0, .unlockEntry 0, .release 0,
    .lockEntry 1, .lockGuardAgain 1, .decrement 1, .unlockEntry 1, .erase 1]

theorem run_exclusive_turns : ∃ s, runSteps step init turns = some s ∧ s.Exclusive := by
  have hfew : ∀ s : Guards Nat (Fin 2), s.Few := by
    intro s id
    refine lt_of_le_of_lt Set.encard_le_card ?_
    rw [ENat.card_eq_coe_fintype_card, Fintype.card_fin]
    exact_mod_cast (by decide : 2 < 2 ^ 32)
  exact ⟨_, rfl, @run_exclusive _ _ _ _ _ turns
    (Along.of_forall _ fun _ _ _ s' _ => hfew s') rfl⟩

/-- The first guards of an id, which all wait. -/
def crowd (n : Nat) : List (GuardOp Nat Nat) :=
  (List.range n).flatMap fun g => [.lockGuard g 7, .emplace g, .increment g, .unlockGuard g]

/-- The counter of a crowd. -/
theorem runSteps_crowd (n : Nat) : ∃ s, runSteps step init (crowd (n + 1)) = some s ∧
    s.rel 7 = some 0 ∧ s.entries 0 = some ⟨UInt32.ofNat (n + 1), none⟩ ∧ s.guardMutex = none ∧
    ∀ g, s.phase g = if g ≤ n then .waiting 7 0 else .absent := by
  induction n with
  | zero =>
    refine ⟨_, rfl, rfl, rfl, rfl, fun g => ?_⟩
    show Function.update (Function.update (Function.update (Function.update _ 0 _) 0 _) 0 _) 0 _ g = _
    rw [Function.update_idem, Function.update_idem, Function.update_idem, Function.update_apply]
    simp only [Nat.le_zero]
    rfl
  | succ n ih =>
    obtain ⟨s, hrun, hrel, hentry, hfree, hphase⟩ := ih
    have hsplit : crowd (n + 1 + 1) = crowd (n + 1) ++
        [.lockGuard (n + 1) 7, .emplace (n + 1), .increment (n + 1), .unlockGuard (n + 1)] := by
      rw [crowd, List.range_succ, List.flatMap_append, ← crowd]
      rfl
    rw [hsplit, runSteps_append, hrun, Option.bind_some]
    have habsent : s.phase (n + 1) = .absent := by rw [hphase, if_neg (Nat.not_succ_le_self n)]
    refine ⟨((s.setPhase (some (n + 1)) (n + 1) (.emplaced 7 0)).setEntry 0 ⟨UInt32.ofNat (n + 1 + 1), none⟩
      (n + 1) (.entered 7 0)).setPhase none (n + 1) (.waiting 7 0), ?_, hrel, ?_, rfl, fun g => ?_⟩
    · simp [runSteps, step, hfree, habsent, setPhase, emplace, hrel, hentry, setEntry]
    · show Function.update s.entries 0 _ 0 = _
      exact Function.update_self ..
    · show Function.update (Function.update (Function.update s.phase _ _) _ _) _ _ g = _
      rw [Function.update_idem, Function.update_idem, Function.update_apply, hphase]
      by_cases hg : g = n + 1
      · rw [if_pos hg, if_pos (Nat.le_of_eq hg)]
      · rw [if_neg hg]
        simp only [Nat.le_iff_lt_or_eq (m := n + 1), hg, Nat.lt_succ_iff, or_false]

/-- An entry is there before its counter is raised, a guard that is no longer counted has it yet, and the guard
that comes as number 2^32 leaves an entry behind that counts nobody. -/
theorem not_exclusive_crowd :
    (∃ s : Guards Nat Nat, runSteps step init [.lockGuard 0 7, .emplace 0] = some s ∧
      (s.rel 7).isSome ∧ s.getEntryCount 7 = 0) ∧
    (∃ s : Guards Nat Nat, runSteps step init [.lockGuard 0 7, .emplace 0, .increment 0, .unlockGuard 0,
      .lockEntry 0, .lockGuardAgain 0, .decrement 0] = some s ∧ (s.rel 7).isSome ∧
        (s.phase 0).held = some (7, 0) ∧ s.getEntryCount 7 = 0) ∧
    ∃ s, runSteps step init (crowd (2 ^ 32)) = some s ∧ ¬ s.Exclusive := by
  refine ⟨⟨_, rfl, rfl, rfl⟩, ⟨_, rfl, rfl, rfl, rfl⟩, ?_⟩
  obtain ⟨s, hrun, hrel, hentry, -, hphase⟩ := runSteps_crowd (2 ^ 32 - 1)
  refine ⟨s, hrun, fun h => ?_⟩
  obtain hpos | ⟨g, hg⟩ := (h.exists_iff 7).mp (by rw [hrel]; rfl)
  · rw [getEntryCount, hrel, Option.bind_some, hentry] at hpos
    exact absurd hpos (by decide)
  · rw [hphase] at hg
    split at hg <;> exact hg

end Guards

end CxxLab.CkLab
