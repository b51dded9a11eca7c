import CxxLab.NewMetaLab.Calls
import Mathlib.Data.List.Nodup

/-!
# `BackgroundGC` — the collector next to the threads that add

`Add` has three sections: it looks at the largest id under the lock, makes the snapshot outside of
it, and puts it in under the lock again; what it evicts it hands over under the other one. The
collector goes round: it tests `done_`, takes all of `to_release_`, and drops its references one
after another. `step` is one of these sections of one of these threads, in any order.

What is handed over is taken in its order, and no snapshot is in two places (`Held`). But the test
of `done_` comes before the look at the queue, and `Add` hands over after it has let go of the lock
under which it found `done_` unset: what is still on its way when the collector leaves stays.
-/

set_option autoImplicit false

namespace CxxLab.NewMetaLab

open Std CxxLab.Lib

/-! ## The sections of `Add` -/

namespace World

/-- `SnapshotsHolder::ReadyForRelease`. -/
def readyForRelease (w : World) (ss : Option Nat) : World :=
  { w with toRelease := w.toRelease ++ [ss] }

/-- The oldest snapshot leaves `active_`, where there are too many. -/
def takeOldest (w : World) : Option (Option (Option Nat) × World) := do
  if w.active.size ≤ w.numVersions then
    return (none, w)
  let oldest ← w.active[w.minId]?
  let active := w.active.erase w.minId
  let first ← active.keys.head?
  return (some oldest, { w with active := active, minId := first })

/-- `SnapshotsHolder::Add` under its second lock: what it returns, and `oldest_ss`. -/
def addLocked (w : World) (id : Int) (s : Nat) : Option (Bool × Option (Option Nat) × World) := do
  if w.done then
    return (false, none, w)
  let w := w.updateSnapshot s fun o => o.registerOnNoRefCB.ref
  if id ∈ w.active then
    return (false, none, w)
  let (oldest, w) ← takeOldest { w with
    minId := if w.minId > id then id else w.minId
    maxId := if w.maxId < id then id else w.maxId
    active := w.active.insert id (some s) }
  return (true, oldest, w)

theorem evict_eq (w : World) : w.evict =
    w.takeOldest.map fun r => (r.1.map r.2.readyForRelease).getD r.2 := by
  unfold evict takeOldest
  split
  · rfl
  · simp only [Option.bind_eq_bind, Option.map_eq_bind, Option.bind_assoc]
    rfl

/-- **`Add` alone** is its sections one after another. -/
theorem add_eq (w : World) (id : Int) : w.add id =
    if w.active.size > 0 ∧ id < w.maxId then some (false, w)
    else (w.newSnapshot id).bind fun r => (r.2.addLocked id r.1).map fun q =>
      (q.1, (q.2.1.map q.2.2.readyForRelease).getD q.2.2) := by
  unfold add addLocked
  split
  · rfl
  · refine Option.bind_congr fun r _ => ?_
    dsimp only
    split
    · rfl
    · split
      · rfl
      · rw [evict_eq]
        simp only [Option.bind_eq_bind, Option.map_eq_bind, Option.bind_assoc]
        rfl

theorem takeOldest_cases {w w' : World} {oldest : Option (Option Nat)}
    (h : w.takeOldest = some (oldest, w')) :
    oldest = none ∧ w' = w ∨
    ∃ o first, oldest = some o ∧ w.active[w.minId]? = some o ∧
      w' = { w with active := w.active.erase w.minId, minId := first } := by
  unfold takeOldest at h
  split at h
  · cases h
    exact .inl ⟨rfl, rfl⟩
  · obtain ⟨o, ho, h⟩ := Option.bind_eq_some_iff.mp h
    obtain ⟨first, -, h⟩ := Option.bind_eq_some_iff.mp h
    cases h
    exact .inr ⟨o, first, rfl, ho, rfl⟩

/-- **What `Add` does under its second lock**: nothing to the window, or it puts in the id, with or
without the oldest going. -/
theorem Sound.addLocked {w w' : World} (h : w.Sound) {id : Int} {s : Nat} {b : Bool}
    {oldest : Option (Option Nat)} (hrun : w.addLocked id s = some (b, oldest, w')) :
    w'.Sound ∧ w'.nextSnapshot = w.nextSnapshot ∧ w'.toRelease = w.toRelease ∧ w'.done = w.done ∧
    (oldest = none ∧ w'.active = w.active ∨
    oldest = none ∧ w'.active = w.active.insert id (some s) ∨
    w.done = false ∧ ∃ (least : Int) (o : Option Nat), oldest = some o ∧
      (w.active.insert id (some s))[least]? = some o ∧
      w'.active = (w.active.insert id (some s)).erase least) := by
  obtain ⟨hsound, -⟩ := @Sound.updateSnapshot _ h s (fun o => o.registerOnNoRefCB.ref) rfl
  have hof := fun w' => @Sound.of_eq _ w' hsound
  unfold World.addLocked at hrun
  split at hrun
  · cases hrun
    exact ⟨h, rfl, rfl, rfl, .inl ⟨rfl, rfl⟩⟩
  · rename_i hdone
    rw [Bool.not_eq_true] at hdone
    dsimp only at hrun
    split at hrun
    · cases hrun
      exact ⟨hsound, rfl, rfl, rfl, .inl ⟨rfl, rfl⟩⟩
    · obtain ⟨⟨o, w₁⟩, htake, hret⟩ := Option.bind_eq_some_iff.mp hrun
      cases hret
      have hkept : w₁.Sound ∧ w₁.nextSnapshot = w.nextSnapshot ∧ w₁.toRelease = w.toRelease ∧
          w₁.done = w.done := by
        rcases takeOldest_cases htake with ⟨-, rfl⟩ | ⟨_, _, -, -, rfl⟩
        · exact ⟨by apply (hof _ _ _ _ _ _).1 <;> rfl, rfl, rfl, rfl⟩
        · exact ⟨by apply (hof _ _ _ _ _ _).1 <;> rfl, rfl, rfl, rfl⟩
      refine ⟨hkept.1, hkept.2.1, hkept.2.2.1, hkept.2.2.2, ?_⟩
      rcases takeOldest_cases htake with ⟨rfl, rfl⟩ | ⟨o, first, rfl, ho, rfl⟩
      · exact .inr (.inl ⟨rfl, rfl⟩)
      · exact .inr (.inr ⟨hdone, _, o, rfl, ho, rfl⟩)

end World

/-! ## The threads -/

/-- Where a thread is in `Add`. -/
inductive AddPhase where
  | idle
  | making (id : Int)
  | inserting (id : Int) (s : Nat)
  | handingOver (oldest : Option Nat)

/-- Where the collector is. -/
inductive GcPhase where
  | testing
  | taking
  | releasing (sss : List (Option Nat))
  | returned

/-- What the collector has taken. -/
def GcPhase.batch : GcPhase → List (Option Nat)
  | .releasing sss => sss
  | _ => []

structure Threads where
  world : World
  adds : Nat → AddPhase
  gc : GcPhase
  /-- What was handed to `ReadyForRelease`. -/
  handed : List (Option Nat)
  /-- What the collector has dropped its reference on. -/
  unRefed : List (Option Nat)

namespace Threads

def init (random numVersions : Nat) : Threads :=
  ⟨World.init random numVersions, fun _ => .idle, .testing, [], []⟩

inductive Step where
  | addCheck (t : Nat) (id : Int)
  | addMake (t : Nat)
  | addInsert (t : Nat)
  | addHandOver (t : Nat)
  | notifyDone
  | gcTest
  | gcTake
  | gcUnRef

/-- One thread goes on in `Add`. -/
def advance (S : Threads) (t : Nat) (phase : AddPhase) (w : World) : Threads :=
  { S with world := w, adds := Function.update S.adds t phase }

/-- One section of one thread. -/
def step (stale : Int → String) (S : Threads) : Step → Option Threads
  | .addCheck t id =>
    match S.adds t with
    | .idle =>
      if S.world.active.size > 0 ∧ id < S.world.maxId then some S
      else some (S.advance t (.making id) S.world)
    | _ => none
  | .addMake t =>
    match S.adds t with
    | .making id => do
      let (s, w) ← S.world.newSnapshot id
      return S.advance t (.inserting id s) w
    | _ => none
  | .addInsert t =>
    match S.adds t with
    | .inserting id s => do
      let (_, oldest, w) ← S.world.addLocked id s
      return S.advance t (oldest.elim .idle .handingOver) w
    | _ => none
  | .addHandOver t =>
    match S.adds t with
    | .handingOver ss =>
      some { S.advance t .idle (S.world.readyForRelease ss) with handed := S.handed ++ [ss] }
    | _ => none
  | .notifyDone => some { S with world := { S.world with done := true } }
  | .gcTest =>
    match S.gc with
    | .testing => some { S with gc := if S.world.done then .returned else .taking }
    | _ => none
  | .gcTake =>
    match S.gc with
    | .taking =>
      some { S with world := { S.world with toRelease := [] }, gc := .releasing S.world.toRelease }
    | _ => none
  | .gcUnRef =>
    match S.gc with
    | .releasing [] => some { S with gc := .testing }
    | .releasing (some s :: sss) =>
      some { S with world := S.world.unRefSnapshot stale s, gc := .releasing sss,
                    unRefed := S.unRefed ++ [some s] }
    | _ => none

/-- **A pass of the collector alone** is its sections one after another. -/
theorem runSteps_gcPass (stale : Int → String) {S : Threads} (hgc : S.gc = .testing)
    (hdone : S.world.done = false) :
    (runSteps (step stale) S
        (.gcTest :: .gcTake :: List.replicate (S.world.toRelease.length + 1) .gcUnRef)).map
      Threads.world = S.world.gcPass stale := by
  have hloop : ∀ (sss : List (Option Nat)) (w : World) (adds : Nat → AddPhase) handed unRefed,
      (runSteps (step stale) ⟨w, adds, .releasing sss, handed, unRefed⟩
        (List.replicate (sss.length + 1) .gcUnRef)).map Threads.world =
      World.unRefEach stale sss w := by
    intro sss
    induction sss with
    | nil => intros; rfl
    | cons o sss ih =>
      intro w adds handed unRefed
      cases o with
      | none => rfl
      | some s => exact ih _ _ _ _
  have htest : step stale S .gcTest = some { S with gc := .taking } := by
    simp only [step, hgc, hdone]
    rfl
  rw [World.gcPass, if_neg (by rw [hdone]; exact Bool.false_ne_true), runSteps, htest,
    Option.bind_some]
  exact hloop S.world.toRelease _ _ _ _

/-- **The ways a step can go.** -/
inductive Stepped (stale : Int → String) (S : Threads) : Step → Threads → Prop where
  | addRefused {t : Nat} {id : Int} : Stepped stale S (.addCheck t id) S
  | addCheck {t : Nat} {id : Int} (ht : S.adds t = .idle) :
    Stepped stale S (.addCheck t id) (S.advance t (.making id) S.world)
  | addMake {t : Nat} {id : Int} {s : Nat} {w : World} (ht : S.adds t = .making id)
    (hmade : S.world.newSnapshot id = some (s, w)) :
    Stepped stale S (.addMake t) (S.advance t (.inserting id s) w)
  | addInsert {t : Nat} {id : Int} {s : Nat} {b : Bool} {oldest : Option (Option Nat)} {w : World}
    (ht : S.adds t = .inserting id s) (hrun : S.world.addLocked id s = some (b, oldest, w)) :
    Stepped stale S (.addInsert t) (S.advance t (oldest.elim .idle .handingOver) w)
  | addHandOver {t : Nat} {ss : Option Nat} (ht : S.adds t = .handingOver ss) :
    Stepped stale S (.addHandOver t)
      { S.advance t .idle (S.world.readyForRelease ss) with handed := S.handed ++ [ss] }
  | notifyDone : Stepped stale S .notifyDone { S with world := { S.world with done := true } }
  | gcLeaves (hgc : S.gc = .testing) (hdone : S.world.done = true) :
    Stepped stale S .gcTest { S with gc := .returned }
  | gcGoesOn (hgc : S.gc = .testing) (hdone : S.world.done = false) :
    Stepped stale S .gcTest { S with gc := .taking }
  | gcTake (hgc : S.gc = .taking) :
    Stepped stale S .gcTake
      { S with world := { S.world with toRelease := [] }, gc := .releasing S.world.toRelease }
  | gcRound (hgc : S.gc = .releasing []) : Stepped stale S .gcUnRef { S with gc := .testing }
  | gcUnRef {s : Nat} {sss : List (Option Nat)} (hgc : S.gc = .releasing (some s :: sss)) :
    Stepped stale S .gcUnRef
      { S with world := S.world.unRefSnapshot stale s, gc := .releasing sss,
               unRefed := S.unRefed ++ [some s] }

theorem Stepped.of_step {stale : Int → String} {S S' : Threads} {a : Step}
    (hstep : step stale S a = some S') : Stepped stale S a S' := by
  cases a with
  | addCheck t id =>
    simp only [step] at hstep
    split at hstep
    · rename_i ht
      split at hstep
      · cases hstep
        exact .addRefused
      · cases hstep
        exact .addCheck ht
    · cases hstep
  | addMake t =>
    simp only [step] at hstep
    split at hstep
    · rename_i ht
      obtain ⟨⟨s, w⟩, hmade, heq⟩ := Option.bind_eq_some_iff.mp hstep
      cases heq
      exact .addMake ht hmade
    · cases hstep
  | addInsert t =>
    simp only [step] at hstep
    split at hstep
    · rename_i ht
      obtain ⟨⟨b, oldest, w⟩, hrun, heq⟩ := Option.bind_eq_some_iff.mp hstep
      cases heq
      exact .addInsert ht hrun
    · cases hstep
  | addHandOver t =>
    simp only [step] at hstep
    split at hstep
    · rename_i ht
      cases hstep
      exact .addHandOver ht
    · cases hstep
  | notifyDone =>
    cases hstep
    exact .notifyDone
  | gcTest =>
    simp only [step] at hstep
    split at hstep
    · rename_i hgc
      cases hstep
      cases hdone : S.world.done with
      | true => exact .gcLeaves hgc hdone
      | false => exact .gcGoesOn hgc hdone
    · cases hstep
  | gcTake =>
    simp only [step] at hstep
    split at hstep
    · rename_i hgc
      cases hstep
      exact .gcTake hgc
    · cases hstep
  | gcUnRef =>
    simp only [step] at hstep
    split at hstep
    · rename_i hgc
      cases hstep
      exact .gcRound hgc
    · rename_i hgc
      cases hstep
      exact .gcUnRef hgc
    · cases hstep

/-! ## One place for each snapshot -/

inductive Place where
  | inserting (t : Nat)
  | active (id : Int)
  | handingOver (t : Nat)
  | handed

/-- Where a snapshot goes when thread `t` puts in that of `id`, and `goes` says where those under keys
go. -/
def Place.put (t : Nat) (id : Int) (goes : Int → Place) : Place → Place
  | .inserting t' => if t' = t then goes id else .inserting t'
  | .active k => goes k
  | p => p

/-- Where a snapshot goes when thread `t` hands over. -/
def Place.handOver (t : Nat) : Place → Place
  | .handingOver t' => if t' = t then .handed else .handingOver t'
  | p => p

/-- The snapshot is there. -/
def At (S : Threads) (s : Nat) : Place → Prop
  | .inserting t => ∃ id, S.adds t = .inserting id s
  | .active id => S.world.active[id]? = some (some s)
  | .handingOver t => S.adds t = .handingOver (some s)
  | .handed => some s ∈ S.handed

/-- **Every snapshot is in one place**, and what is handed over is released in its order. -/
structure Held (S : Threads) : Prop where
  sound : S.world.Sound
  bounded : ∀ s p, S.At s p → s < S.world.nextSnapshot
  single : ∀ s p q, S.At s p → S.At s q → p = q
  active : ∀ id : Int, S.world.active[id]? ≠ some none
  handingOver : ∀ t, S.adds t ≠ .handingOver none
  handed : ∀ o ∈ S.handed, ∃ s, o = some s
  nodup : S.handed.Nodup
  fifo : S.handed = S.unRefed ++ S.gc.batch ++ S.world.toRelease

/-- Where a snapshot can be when one thread has gone on. -/
theorem at_advance {S : Threads} {w : World} {t : Nat} {phase : AddPhase}
    {handed : List (Option Nat)} {s : Nat} {p : Place}
    (h : At { S.advance t phase w with handed := handed } s p) :
    (∃ id : Int, p = .active id ∧ w.active[id]? = some (some s)) ∨
    (p = .handed ∧ some s ∈ handed) ∨
    (p = .inserting t ∧ ∃ id, phase = .inserting id s) ∨
    (p = .handingOver t ∧ phase = .handingOver (some s)) ∨
    (S.At s p ∧ ∃ t', t' ≠ t ∧ (p = .inserting t' ∨ p = .handingOver t')) := by
  cases p with
  | active id => exact .inl ⟨id, rfl, h⟩
  | handed => exact .inr (.inl ⟨rfl, h⟩)
  | inserting t' =>
    obtain ⟨id, hid⟩ := h
    simp only [advance, Function.update_apply] at hid
    split at hid
    · rename_i heq
      subst heq
      exact .inr (.inr (.inl ⟨rfl, id, hid⟩))
    · rename_i hne
      exact .inr (.inr (.inr (.inr ⟨⟨id, hid⟩, t', hne, .inl rfl⟩)))
  | handingOver t' =>
    simp only [At, advance, Function.update_apply] at h
    split at h
    · rename_i heq
      subst heq
      exact .inr (.inr (.inr (.inl ⟨rfl, h⟩)))
    · rename_i hne
      exact .inr (.inr (.inr (.inr ⟨h, t', hne, .inr rfl⟩)))

/-- Snapshots that only move stay apart. -/
theorem Held.moved {S S' : Threads} (h : S.Held) (f : Place → Place)
    (hnext : S.world.nextSnapshot ≤ S'.world.nextSnapshot)
    (hmove : ∀ s p, S'.At s p → ∃ q, S.At s q ∧ f q = p) :
    (∀ s p, S'.At s p → s < S'.world.nextSnapshot) ∧ ∀ s p q, S'.At s p → S'.At s q → p = q := by
  refine ⟨fun s p hp => ?_, fun s p q hp hq => ?_⟩
  · obtain ⟨p₀, hp₀, -⟩ := hmove s p hp
    exact Nat.lt_of_lt_of_le (h.bounded s p₀ hp₀) hnext
  · obtain ⟨p₀, hp₀, rfl⟩ := hmove s p hp
    obtain ⟨q₀, hq₀, rfl⟩ := hmove s q hq
    rw [h.single s p₀ q₀ hp₀ hq₀]

/-- Who hands over when one thread has gone on. -/
theorem handingOver_update {adds : Nat → AddPhase} {t t' : Nat} {phase : AddPhase} {o : Option Nat}
    (h : Function.update adds t phase t' = .handingOver o) :
    t' = t ∧ phase = .handingOver o ∨ t' ≠ t ∧ adds t' = .handingOver o := by
  rw [Function.update_apply] at h
  split at h
  · rename_i heq
    exact .inl ⟨heq, h⟩
  · rename_i hne
    exact .inr ⟨hne, h⟩

theorem Held.addMake {S : Threads} (h : S.Held) {t : Nat} {id : Int} {s : Nat} {w : World}
    (hmade : S.world.newSnapshot id = some (s, w)) :
    Held (S.advance t (.inserting id s) w) := by
  obtain ⟨hsound, -, hwin, rfl, hnext, -⟩ := h.sound.newSnapshot hmade
  have hnew : ∀ p, ¬ S.At S.world.nextSnapshot p := fun p hp =>
    Nat.lt_irrefl _ (h.bounded _ p hp)
  -- The new snapshot is with its thread, the others are where they were.
  have hat : ∀ s' p, (S.advance t (.inserting id S.world.nextSnapshot) w).At s' p →
      S.At s' p ∨ s' = S.world.nextSnapshot ∧ p = .inserting t := by
    intro s' p hp
    rcases at_advance hp with ⟨k, rfl, hk⟩ | ⟨rfl, hk⟩ | ⟨rfl, k, hk⟩ | ⟨-, hk⟩ | ⟨hold, -⟩
    · rw [hwin.active] at hk
      exact .inl hk
    · exact .inl hk
    · cases hk
      exact .inr ⟨rfl, rfl⟩
    · cases hk
    · exact .inl hold
  refine ⟨hsound, fun s' p hp => ?_, fun s' p q hp hq => ?_, ?_, fun t' ht' => ?_, h.handed, h.nodup,
    ?_⟩
  · show s' < w.nextSnapshot
    rcases hat s' p hp with hold | ⟨rfl, -⟩
    · have := h.bounded s' p hold
      omega
    · omega
  · rcases hat s' p hp with hold | ⟨hs, rfl⟩ <;> rcases hat s' q hq with hold' | ⟨hs', rfl⟩
    · exact h.single s' p q hold hold'
    · exact absurd (hs' ▸ hold) (hnew p)
    · exact absurd (hs ▸ hold') (hnew q)
    · rfl
  · show ∀ id : Int, w.active[id]? ≠ some none
    rw [hwin.active]
    exact h.active
  · rcases handingOver_update ht' with ⟨-, hphase⟩ | ⟨-, hold⟩
    · cases hphase
    · exact h.handingOver t' hold
  · show S.handed = S.unRefed ++ S.gc.batch ++ w.toRelease
    rw [hwin.toRelease]
    exact h.fifo

/-- A thread that goes on and leaves all snapshots where they are. -/
theorem Held.quiet {S : Threads} (h : S.Held) {t : Nat} {phase : AddPhase} {w : World}
    (hsound : w.Sound) (hnext : w.nextSnapshot = S.world.nextSnapshot)
    (hrelease : w.toRelease = S.world.toRelease) (hactive : w.active = S.world.active)
    (hinserting : ∀ k s', phase ≠ .inserting k s') (hover : ∀ o, phase ≠ .handingOver o) :
    Held (S.advance t phase w) := by
  obtain ⟨hbounded, hsingle⟩ := @Held.moved S (S.advance t phase w) h id (Nat.le_of_eq hnext.symm)
    fun s p hp => by
    rcases at_advance hp with ⟨k, rfl, hk⟩ | ⟨rfl, hk⟩ | ⟨-, k, hk⟩ | ⟨-, hk⟩ | ⟨hold, -⟩
    · rw [hactive] at hk
      exact ⟨.active k, hk, rfl⟩
    · exact ⟨.handed, hk, rfl⟩
    · exact absurd hk (hinserting k s)
    · exact absurd hk (hover _)
    · exact ⟨p, hold, rfl⟩
  refine ⟨hsound, hbounded, hsingle, ?_, fun t' ht' => ?_, h.handed, h.nodup, ?_⟩
  · show ∀ id : Int, w.active[id]? ≠ some none
    rw [hactive]
    exact h.active
  · rcases handingOver_update ht' with ⟨-, hphase⟩ | ⟨-, hold⟩
    · exact hover none hphase
    · exact h.handingOver t' hold
  · show S.handed = S.unRefed ++ S.gc.batch ++ w.toRelease
    rw [hrelease]
    exact h.fifo

/-- A snapshot that is put in: then the one of each key is at the key, or with the thread. -/
theorem Held.put {S : Threads} (h : S.Held) {t : Nat} {id : Int} {s : Nat} {phase : AddPhase}
    {w : World} (ht : S.adds t = .inserting id s) (hsound : w.Sound)
    (hnext : w.nextSnapshot = S.world.nextSnapshot) (hrelease : w.toRelease = S.world.toRelease)
    (goes : Int → Place)
    (hactive : ∀ (k : Int) o, w.active[k]? = some o →
      (S.world.active.insert id (some s))[k]? = some o ∧ goes k = .active k)
    (hphase : ∀ o, phase = .handingOver o →
      ∃ k : Int, (S.world.active.insert id (some s))[k]? = some o ∧ goes k = .handingOver t)
    (hinserting : ∀ k s', phase ≠ .inserting k s') : Held (S.advance t phase w) := by
  have hnull : ∀ k : Int, (S.world.active.insert id (some s))[k]? ≠ some none := by
    intro k hk
    rcases getElem?_of_insert hk with ⟨-, heq⟩ | hold
    · cases heq
    · exact h.active k hold
  have hgoes : ∀ (k : Int) s', (S.world.active.insert id (some s))[k]? = some (some s') →
      ∃ q, S.At s' q ∧ q.put t id goes = goes k := by
    intro k s' hk
    rcases getElem?_of_insert hk with ⟨rfl, heq⟩ | hold
    · cases heq
      exact ⟨.inserting t, ⟨_, ht⟩, if_pos rfl⟩
    · exact ⟨.active k, hold, rfl⟩
  obtain ⟨hbounded, hsingle⟩ := @Held.moved S (S.advance t phase w) h (Place.put t id goes)
    (Nat.le_of_eq hnext.symm) fun s' p hp => by
    rcases at_advance hp with ⟨k, rfl, hk⟩ | ⟨rfl, hk⟩ | ⟨-, k, hk⟩ | ⟨rfl, hk⟩ |
      ⟨hold, t', hne, hp⟩
    · obtain ⟨hold, hstays⟩ := hactive k _ hk
      exact hstays ▸ hgoes k s' hold
    · exact ⟨.handed, hk, rfl⟩
    · exact absurd hk (hinserting k s')
    · obtain ⟨k, hold, hmoves⟩ := hphase _ hk
      exact hmoves ▸ hgoes k s' hold
    · rcases hp with rfl | rfl
      · exact ⟨_, hold, if_neg hne⟩
      · exact ⟨_, hold, rfl⟩
  refine ⟨hsound, hbounded, hsingle, fun k hk => hnull k (hactive k none hk).1, fun t' ht' => ?_,
    h.handed, h.nodup, ?_⟩
  · rcases handingOver_update ht' with ⟨-, hover⟩ | ⟨-, hold⟩
    · obtain ⟨k, hk, -⟩ := hphase none hover
      exact hnull k hk
    · exact h.handingOver t' hold
  · show S.handed = S.unRefed ++ S.gc.batch ++ w.toRelease
    rw [hrelease]
    exact h.fifo

theorem Held.addInsert {S : Threads} (h : S.Held) {t : Nat} {id : Int} {s : Nat} {b : Bool}
    {oldest : Option (Option Nat)} {w : World} (ht : S.adds t = .inserting id s)
    (hrun : S.world.addLocked id s = some (b, oldest, w)) :
    Held (S.advance t (oldest.elim .idle .handingOver) w) := by
  obtain ⟨hsound, hnext, hrelease, -, hcases⟩ := h.sound.addLocked hrun
  rcases hcases with ⟨rfl, hactive⟩ | ⟨rfl, hactive⟩ | ⟨-, least, o, rfl, ho, hactive⟩
  · refine h.quiet hsound hnext hrelease hactive (fun k s' hk => ?_) fun o ho => ?_
    · cases hk
    · cases ho
  · refine h.put ht hsound hnext hrelease .active (fun k o hk => ⟨hactive ▸ hk, rfl⟩) ?_ ?_
    · intro o ho
      cases ho
    · intro k s' hk
      cases hk
  · refine h.put ht hsound hnext hrelease (fun k => if k = least then .handingOver t else .active k)
      (fun k o hk => ?_) ?_ ?_
    · rw [hactive] at hk
      obtain ⟨hne, hold⟩ := getElem?_of_erase hk
      exact ⟨hold, if_neg hne⟩
    · intro o' ho'
      cases ho'
      exact ⟨least, ho, if_pos rfl⟩
    · intro k s' hk
      cases hk

theorem Held.addHandOver {S : Threads} (h : S.Held) {t : Nat} {ss : Option Nat}
    (ht : S.adds t = .handingOver ss) :
    Held { S.advance t .idle (S.world.readyForRelease ss) with handed := S.handed ++ [ss] } := by
  obtain ⟨hsound, -⟩ : (S.world.readyForRelease ss).Sound ∧ World.Keeps S.world _ :=
    h.sound.of_eq rfl rfl rfl rfl rfl
  have hsome : ∃ s, ss = some s := Option.ne_none_iff_exists'.mp fun hnone =>
    h.handingOver t (hnone ▸ ht)
  obtain ⟨hbounded, hsingle⟩ := @Held.moved S
    { S.advance t .idle (S.world.readyForRelease ss) with handed := S.handed ++ [ss] } h
    (Place.handOver t) (Nat.le_refl _) fun s p hp => by
    rcases at_advance hp with ⟨k, rfl, hk⟩ | ⟨rfl, hk⟩ | ⟨-, k, hk⟩ | ⟨-, hk⟩ | ⟨hold, t', hne, hp⟩
    · exact ⟨.active k, hk, rfl⟩
    · rcases List.mem_append.mp hk with hk | hk
      · exact ⟨.handed, hk, rfl⟩
      · refine ⟨.handingOver t, ?_, if_pos rfl⟩
        rw [List.mem_singleton] at hk
        rw [← hk] at ht
        exact ht
    · cases hk
    · cases hk
    · rcases hp with rfl | rfl
      · exact ⟨_, hold, rfl⟩
      · exact ⟨_, hold, if_neg hne⟩
  refine ⟨hsound, hbounded, hsingle, h.active, fun t' ht' => ?_, fun o ho => ?_, ?_, ?_⟩
  · rcases handingOver_update ht' with ⟨-, hphase⟩ | ⟨-, hold⟩
    · cases hphase
    · exact h.handingOver t' hold
  · rcases List.mem_append.mp ho with ho | ho
    · exact h.handed o ho
    · rwa [List.mem_singleton.mp ho]
  · refine List.nodup_append.mpr ⟨h.nodup, List.pairwise_singleton _ _, ?_⟩
    obtain ⟨s, rfl⟩ := hsome
    rintro o ho o' ho' rfl
    rw [List.mem_singleton] at ho'
    subst ho'
    -- It would have been handed over before.
    cases h.single s .handed (.handingOver t) ho ht
  · show S.handed ++ [ss] = S.unRefed ++ S.gc.batch ++ (S.world.toRelease ++ [ss])
    rw [h.fifo, List.append_assoc _ _ [ss]]

/-- A step of the collector. -/
theorem Held.collect {S : Threads} (h : S.Held) {w : World} {gc : GcPhase}
    {unRefed : List (Option Nat)} (hsound : w.Sound)
    (hnext : w.nextSnapshot = S.world.nextSnapshot) (hactive : w.active = S.world.active)
    (hfifo : unRefed ++ gc.batch ++ w.toRelease = S.unRefed ++ S.gc.batch ++ S.world.toRelease) :
    Held ⟨w, S.adds, gc, S.handed, unRefed⟩ := by
  obtain ⟨hbounded, hsingle⟩ := @Held.moved S ⟨w, S.adds, gc, S.handed, unRefed⟩ h id
    (Nat.le_of_eq hnext.symm) fun s p hp => ⟨p, by
      cases p with
      | active k =>
        rw [At, hactive] at hp
        exact hp
      | inserting | handingOver | handed => exact hp, rfl⟩
  refine ⟨hsound, hbounded, hsingle, ?_, h.handingOver, h.handed, h.nodup, h.fifo.trans hfifo.symm⟩
  show ∀ id : Int, w.active[id]? ≠ some none
  rw [hactive]
  exact h.active

/-- **Every step** keeps the snapshots apart. -/
theorem Held.step {stale : Int → String} {S S' : Threads} {a : Step} (h : S.Held)
    (hstep : step stale S a = some S') : S'.Held := by
  cases Stepped.of_step hstep with
  | addRefused => exact h
  | addCheck ht =>
    refine h.quiet h.sound rfl rfl rfl (fun k s hk => ?_) fun o ho => ?_
    · cases hk
    · cases ho
  | addMake ht hmade => exact h.addMake hmade
  | addInsert ht hrun => exact h.addInsert ht hrun
  | addHandOver ht => exact h.addHandOver ht
  | notifyDone =>
    obtain ⟨hsound, -⟩ : World.Sound { S.world with done := true } ∧ World.Keeps S.world _ :=
      h.sound.of_eq rfl rfl rfl rfl rfl
    exact h.collect hsound rfl rfl rfl
  | gcLeaves hgc =>
    refine h.collect h.sound rfl rfl ?_
    rw [hgc]
    rfl
  | gcGoesOn hgc =>
    refine h.collect h.sound rfl rfl ?_
    rw [hgc]
    rfl
  | gcTake hgc =>
    obtain ⟨hsound, -⟩ : World.Sound { S.world with toRelease := [] } ∧ World.Keeps S.world _ :=
      h.sound.of_eq rfl rfl rfl rfl rfl
    refine h.collect hsound rfl rfl ?_
    simp [hgc, GcPhase.batch]
  | gcRound hgc =>
    refine h.collect h.sound rfl rfl ?_
    rw [hgc]
    rfl
  | gcUnRef hgc =>
    rename_i s sss
    have hmem : some s ∈ S.handed := by
      rw [h.fifo, hgc]
      simp [GcPhase.batch]
    have hdrops := @World.Sound.unRefSnapshot stale _ h.sound _ (h.bounded s .handed hmem)
    refine h.collect hdrops.sound hdrops.nextSnapshot hdrops.window.active ?_
    rw [hgc, hdrops.window.toRelease]
    simp [GcPhase.batch]

theorem Held.of_init (random numVersions : Nat) : (init random numVersions).Held := by
  have hat : ∀ s p, ¬ (init random numVersions).At s p := by
    intro s p hp
    cases p with
    | active k => simp [At, init, World.init] at hp
    | inserting t => simp [At, init] at hp
    | handingOver t => simp [At, init] at hp
    | handed => simp [At, init] at hp
  refine ⟨World.Sound.of_init random numVersions, fun s p hp => (hat s p hp).elim,
    fun s p _ hp => (hat s p hp).elim, fun id => ?_, fun t => ?_, fun o ho => ?_, .nil, rfl⟩
  · simp [init, World.init]
  · simp [init]
  · cases ho

/-! ## Shutdown -/

/-- **All that was handed over is released**, once each. -/
def Released (S : Threads) : Prop :=
  S.world.toRelease = [] ∧ ∀ o ∈ S.handed, S.unRefed.count o = 1

/-- When the collector finds `done_` set, nothing waits for it or is on its way.

Waiting is what is in `to_release_`. On its way is a snapshot that a thread has taken out of
`active_` under the lock and will put there next. -/
def Drained (S : Threads) : Step → Prop
  | .gcTest =>
    S.world.done = true → S.world.toRelease = [] ∧ ∀ t o, S.adds t ≠ .handingOver o
  | _ => True

/-- The collector has left for good. -/
structure Stopped (S : Threads) : Prop where
  returned : S.gc = .returned
  done : S.world.done = true

/-- Something is left for the collector, or on its way. -/
def Pending (S : Threads) : Prop :=
  S.world.toRelease ≠ [] ∨ ∃ t o, S.adds t = .handingOver o

/-- A thread that neither comes with something to hand over nor had it. -/
theorem pending_advance {S : Threads} {t : Nat} {phase : AddPhase} {w : World}
    (hrelease : w.toRelease = S.world.toRelease) (hphase : ∀ o, phase ≠ .handingOver o)
    (ht : ∀ o, S.adds t ≠ .handingOver o) : (S.advance t phase w).Pending ↔ S.Pending := by
  have hthreads : (∃ t' o, (S.advance t phase w).adds t' = .handingOver o) ↔
      ∃ t' o, S.adds t' = .handingOver o := by
    constructor
    · rintro ⟨t', o, ho⟩
      rcases handingOver_update ho with ⟨-, ho⟩ | ⟨-, ho⟩
      · exact absurd ho (hphase o)
      · exact ⟨t', o, ho⟩
    · rintro ⟨t', o, ho⟩
      have hne : t' ≠ t := by
        rintro rfl
        exact ht o ho
      exact ⟨t', o, (Function.update_of_ne hne _ _).trans ho⟩
  rw [Pending, Pending, hthreads]
  show w.toRelease ≠ [] ∨ _ ↔ _
  rw [hrelease]

/-- **When the collector has left**, nothing comes to what is pending that was not on its way, and
nothing goes. -/
theorem Stopped.step {stale : Int → String} {S S' : Threads} {a : Step} (h : S.Held)
    (hstop : S.Stopped) (hstep : step stale S a = some S') :
    S'.Stopped ∧ (S'.Pending ↔ S.Pending) := by
  have hstay : ∀ {phase}, S.gc = phase → phase = .returned := fun hgc =>
    hgc.symm.trans hstop.returned
  cases Stepped.of_step hstep with
  | addRefused => exact ⟨hstop, Iff.rfl⟩
  | addCheck ht =>
    refine ⟨⟨hstop.returned, hstop.done⟩, pending_advance rfl (fun o ho => ?_) fun o ho => ?_⟩
    · cases ho
    · cases ht.symm.trans ho
  | addMake ht hmade =>
    obtain ⟨-, -, hwin, -⟩ := h.sound.newSnapshot hmade
    refine ⟨⟨hstop.returned, hwin.done.trans hstop.done⟩,
      pending_advance hwin.toRelease (fun o ho => ?_) fun o ho => ?_⟩
    · cases ho
    · cases ht.symm.trans ho
  | addInsert ht hrun =>
    obtain ⟨-, -, hrelease, hdone, hcases⟩ := h.sound.addLocked hrun
    -- It finds `done_` set and evicts nothing.
    obtain rfl : _ = none := by
      rcases hcases with ⟨hnone, -⟩ | ⟨hnone, -⟩ | ⟨hrunning, -⟩
      · exact hnone
      · exact hnone
      · rw [hstop.done] at hrunning
        cases hrunning
    refine ⟨⟨hstop.returned, hdone.trans hstop.done⟩,
      pending_advance hrelease (fun o ho => ?_) fun o ho => ?_⟩
    · cases ho
    · cases ht.symm.trans ho
  | addHandOver ht =>
    exact ⟨⟨hstop.returned, hstop.done⟩, iff_of_true (.inl (List.append_ne_nil_of_right_ne_nil _
      (List.cons_ne_nil _ _))) (.inr ⟨_, _, ht⟩)⟩
  | notifyDone => exact ⟨⟨hstop.returned, rfl⟩, Iff.rfl⟩
  | gcLeaves hgc => cases hstay hgc
  | gcGoesOn hgc => cases hstay hgc
  | gcTake hgc => cases hstay hgc
  | gcRound hgc => cases hstay hgc
  | gcUnRef hgc => cases hstay hgc

theorem returned_of_step {stale : Int → String} {S S' : Threads} {a : Step}
    (hstep : step stale S a = some S') (hret : S'.gc = .returned) (hrunning : S.gc ≠ .returned) :
    a = .gcTest ∧ S.world.done = true ∧ S' = { S with gc := .returned } := by
  cases Stepped.of_step hstep with
  | gcLeaves hgc hdone => exact ⟨rfl, hdone, rfl⟩
  | gcGoesOn | gcTake | gcRound | gcUnRef => cases hret
  | _ => exact absurd hret hrunning

theorem run_stopped {stale : Int → String} : ∀ {steps : List Step} {S S' : Threads}, S.Held →
    S.Stopped → runSteps (step stale) S steps = some S' →
    Along (step stale) Drained S steps ∧ (S'.Pending ↔ S.Pending) := by
  intro steps
  induction steps with
  | nil =>
    intro S S' _ _ hrun
    cases hrun
    exact ⟨trivial, Iff.rfl⟩
  | cons a steps ih =>
    intro S S' h hstop hrun
    obtain ⟨S₁, hone, hrest⟩ := Option.bind_eq_some_iff.mp hrun
    obtain ⟨hstop₁, hsame⟩ := hstop.step h hone
    obtain ⟨hdrained, hsame'⟩ := ih (h.step hone) hstop₁ hrest
    refine ⟨Along.cons_iff.mpr ⟨?_, fun S₂ hS₂ => ?_⟩, hsame'.trans hsame⟩
    · cases a with
      | gcTest =>
        rw [Threads.step, hstop.returned] at hone
        cases hone
      | _ => trivial
    · cases hone.symm.trans hS₂
      exact hdrained

/-- **What is pending in the end** is what was when the collector found `done_` set. -/
theorem along_drained_iff {stale : Int → String} : ∀ {steps : List Step} {S S' : Threads}, S.Held →
    S.gc ≠ .returned → runSteps (step stale) S steps = some S' → S'.gc = .returned →
    (Along (step stale) Drained S steps ↔ ¬ S'.Pending) := by
  intro steps
  induction steps with
  | nil =>
    intro S S' _ hrunning hrun hret
    cases hrun
    exact absurd hret hrunning
  | cons a steps ih =>
    intro S S' h hrunning hrun hret
    obtain ⟨S₁, hone, hrest⟩ := Option.bind_eq_some_iff.mp hrun
    have hlater : (∀ S₂, step stale S a = some S₂ → Along (step stale) Drained S₂ steps) ↔
        Along (step stale) Drained S₁ steps :=
      ⟨fun hall => hall S₁ hone, fun hS₁ S₂ hS₂ => Option.some_inj.mp (hone.symm.trans hS₂) ▸ hS₁⟩
    rw [Along.cons_iff, hlater]
    by_cases hlast : S₁.gc = .returned
    · obtain ⟨rfl, hdone, rfl⟩ := returned_of_step hone hlast hrunning
      obtain ⟨hdrained, hsame⟩ := run_stopped (h.step hone) ⟨rfl, hdone⟩ hrest
      have hpending : S.Pending ↔ ¬ Drained S .gcTest := by
        simp [Pending, Drained, hdone, or_iff_not_imp_left]
      rw [hsame, and_iff_left hdrained]
      exact (not_iff_comm.mp hpending.symm).symm
    · have hdrained : Drained S a := by
        cases a with
        | gcTest =>
          intro hdone
          cases Stepped.of_step hone with
          | gcLeaves => exact absurd rfl hlast
          | gcGoesOn _ hno =>
            rw [hdone] at hno
            cases hno
        | _ => trivial
      rw [and_iff_right hdrained]
      exact ih (h.step hone) hlast hrest hret

/-- **Shutdown releases everything if and only if** the collector, when it finds `done_` set, leaves
nothing behind: neither in `to_release_` nor with a thread that has still to hand it over.

The test of `done_` comes before the look at the queue, and the collector returns without another
one. What is evicted is followed from `active_` over the thread that has evicted it and the queue to
the collector, always in one order (`Held`), so that at the end it can be compared with what has
been released. -/
theorem run_released_iff {stale : Int → String} {random numVersions : Nat} {steps : List Step}
    {S : Threads} (hrun : runSteps (step stale) (init random numVersions) steps = some S)
    (hret : S.gc = .returned) (hidle : ∀ t, S.adds t = .idle) :
    S.Released ↔ Along (step stale) Drained (init random numVersions) steps := by
  have hinit := Held.of_init random numVersions
  have h : S.Held := runSteps_inv (I := Held) (fun _ _ _ h hstep => h.step hstep) hinit hrun
  rw [along_drained_iff hinit (fun hgc => by cases hgc) hrun hret]
  have hpending : ¬ S.Pending ↔ S.world.toRelease = [] := by
    simp [Pending, hidle]
  rw [hpending, Released, and_iff_left_iff_imp]
  intro hempty o ho
  have hfifo := h.fifo
  rw [hret, hempty] at hfifo
  simp only [GcPhase.batch, List.append_nil] at hfifo
  rw [← hfifo]
  exact List.count_eq_one_of_mem h.nodup ho

/-- Two versions are added, and the older is evicted. -/
def twoVersions : List Step :=
  [.addCheck 0 1, .addMake 0, .addInsert 0, .addCheck 0 2, .addMake 0, .addInsert 0, .addHandOver 0]

theorem run_released_iff_pass : ∃ S, runSteps (step fun _ => "c_1") (init 3 1)
      (twoVersions ++ [.gcTest, .gcTake, .gcUnRef, .gcUnRef, .notifyDone, .gcTest]) = some S ∧
    (S.Released ↔ Along (step fun _ => "c_1") Drained (init 3 1)
      (twoVersions ++ [.gcTest, .gcTake, .gcUnRef, .gcUnRef, .notifyDone, .gcTest])) := by
  refine ⟨_, rfl, @run_released_iff (fun _ => "c_1") 3 1
    (twoVersions ++ [.gcTest, .gcTake, .gcUnRef, .gcUnRef, .notifyDone, .gcTest]) _ rfl rfl
    fun t => ?_⟩
  cases t <;> rfl

/-- Without a pass in between, the collector leaves the older one. -/
theorem not_released : ∃ S, runSteps (step fun _ => "c_1") (init 3 1)
      (twoVersions ++ [.notifyDone, .gcTest]) = some S ∧
    S.gc = .returned ∧ (∀ t, S.adds t = .idle) ∧ S.handed = [some 0] ∧
    S.world.toRelease = [some 0] ∧ S.unRefed = [] ∧ ¬ S.Released := by
  refine ⟨_, rfl, rfl, fun t => ?_, rfl, rfl, rfl, fun h => ?_⟩
  · cases t <;> rfl
  · cases h.1

end Threads

end CxxLab.NewMetaLab
