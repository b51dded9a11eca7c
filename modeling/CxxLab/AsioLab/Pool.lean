import CxxLab.Lib.Monitor
import CxxLab.Lib.Run

/-!
# `asio_lab/main.cpp` — `Pool`

A thread pool with a queue of 8, one condition variable for workers and callers alike, and `notify_one`.
A worker that takes a handler wakes one sleeper, and so does a caller that brings one, but which one is
not up to them: it may be one that has nothing to gain, and then nobody else is told.

With one caller at a time that goes well as long as there are fewer than 16 workers
(`never_hangs_iff`). For the caller to sleep on when the queue is no longer full, eight workers have to
be woken in its place while the queue is emptied; they must have been asleep when the queue was filled,
which took eight more workers off the condition variable.

`~Pool` does not wait for the queue to be emptied. What is in it when the pool is terminated is never
run (`handlers_kept`).

A step is what a thread does under the lock, or one of the things it does without. A handler is run in
one step and does not itself use the pool. A thread may be woken for no reason.
-/

set_option autoImplicit false

namespace CxxLab.AsioLab

open CxxLab.Lib Place

variable {τ : Type}

/-- A worker that does not wait for the condition. -/
inductive WorkerAt (τ : Type) where
  | run (handler : τ)
  | returned
  deriving DecidableEq

/-- A call of `Enqueue` that does not wait for the condition. -/
inductive CallerAt where
  /-- The handler is in the queue and the lock given back. -/
  | notify
  | returned
  /-- By the exception. -/
  | thrown
  deriving DecidableEq

/-- The destructor. -/
inductive Destroyer where
  | notCalled
  | notify
  | join
  | returned
  deriving DecidableEq

abbrev Worker (τ : Type) := Place Unit (WorkerAt τ)

/-- A call of `Enqueue`, with its handler in hand. -/
abbrev Caller (τ : Type) := Place τ CallerAt

structure Pool (τ : Type) where
  queue : List τ
  terminated : Bool
  workers : List (Worker τ)
  callers : List (Caller τ)
  destroyer : Destroyer
  /-- What has happened to handlers so far, in order. -/
  accepted : List τ
  started : List τ
  finished : List τ

/-- Somebody who can be woken. -/
inductive Sleeper where
  | worker (i : Nat)
  | caller (i : Nat)

namespace Pool

/-- The constructor. -/
def new (size : Nat) : Pool τ where
  queue := []
  terminated := false
  workers := List.replicate size (.ready ())
  callers := []
  destroyer := .notCalled
  accepted := []
  started := []
  finished := []

/-- `cond_.notify_all()`. -/
def notifyAll (s : Pool τ) : Pool τ :=
  { s with workers := wakeAll s.workers, callers := wakeAll s.callers }

def setWorker (s : Pool τ) (i : Nat) (w : Worker τ) : Pool τ :=
  { s with workers := s.workers.set i w }

def setCaller (s : Pool τ) (i : Nat) (c : Caller τ) : Pool τ :=
  { s with callers := s.callers.set i c }

def wake (s : Pool τ) : Sleeper → Option (Pool τ)
  | .worker i =>
    match s.workers[i]? with
    | some (.waiting _) => some (s.setWorker i (.ready ()))
    | _ => none
  | .caller i =>
    match s.callers[i]? with
    | some (.waiting handler) => some (s.setCaller i (.ready handler))
    | _ => none

/-- `cond_.notify_one()`, which wakes this sleeper; nobody only if nobody sleeps. -/
def notifyOne (s : Pool τ) : Option Sleeper → Option (Pool τ)
  | some sleeper => s.wake sleeper
  | none =>
    if s.workers.any isWaiting || s.callers.any isWaiting then none else some s

/-- `WorkThread`. -/
def workerStep (s : Pool τ) (i : Nat) (woken : Option Sleeper) : Option (Pool τ) :=
  match s.workers[i]? with
  | some (.ready _) =>
    if s.terminated then some (s.setWorker i (.out .returned))
    else
      match s.queue with
      | [] => some (s.setWorker i (.waiting ()))
      | handler :: queue =>
        notifyOne { s.setWorker i (.out (.run handler)) with
          queue := queue, started := s.started ++ [handler] } woken
  | some (.out (.run handler)) =>
    some { s.setWorker i (.ready ()) with finished := s.finished ++ [handler] }
  | _ => none

/-- `Enqueue`. -/
def callerStep (s : Pool τ) (i : Nat) (woken : Option Sleeper) : Option (Pool τ) :=
  match s.callers[i]? with
  | some (.ready handler) =>
    if s.terminated || s.queue.length < 8 then
      if s.terminated then some (s.setCaller i (.out .thrown))
      else
        some { s.setCaller i (.out .notify) with
          queue := s.queue ++ [handler], accepted := s.accepted ++ [handler] }
    else some (s.setCaller i (.waiting handler))
  | some (.out .notify) => (s.setCaller i (.out .returned)).notifyOne woken
  | _ => none

/-- `~Pool`, once it has set `terminated_`. -/
def destroyerStep (s : Pool τ) : Option (Pool τ) :=
  match s.destroyer with
  | .notify => some { s.notifyAll with destroyer := .join }
  | .join =>
    if ∀ w ∈ s.workers, w matches .out .returned then some { s with destroyer := .returned }
    else none
  | _ => none

/-- The sleeper is the one `notify_one` wakes, if it comes to that. -/
inductive Action (τ : Type) where
  | call (handler : τ)
  | destroy
  | worker (i : Nat) (woken : Option Sleeper)
  | caller (i : Nat) (woken : Option Sleeper)
  | destroyer
  | wake (sleeper : Sleeper)

def step (s : Pool τ) : Action τ → Option (Pool τ)
  | .call handler =>
    if s.destroyer = .returned then none
    else some { s with callers := s.callers ++ [.ready handler] }
  | .destroy =>
    if s.destroyer = .notCalled then some { s with terminated := true, destroyer := .notify }
    else none
  | .worker i woken => s.workerStep i woken
  | .caller i woken => s.callerStep i woken
  | .destroyer => s.destroyerStep
  | .wake sleeper => s.wake sleeper

/-! ## What a step does -/

/-- One sleeper wakes. -/
inductive Wakes (s : Pool τ) : Pool τ → Prop where
  | worker (i : Nat) : s.workers[i]? = some (.waiting ()) → Wakes s (s.setWorker i (.ready ()))
  | caller (i : Nat) (handler : τ) : s.callers[i]? = some (.waiting handler) →
      Wakes s (s.setCaller i (.ready handler))

/-- One sleeper wakes, if there is one. -/
inductive Notifies (s : Pool τ) : Pool τ → Prop where
  | one {s' : Pool τ} : s.Wakes s' → Notifies s s'
  | nobody : (∀ w ∈ s.workers, w ≠ .waiting ()) →
      (∀ c ∈ s.callers, ∀ handler, c ≠ .waiting handler) → Notifies s s

inductive Moves (s : Pool τ) : Action τ → Pool τ → Prop where
  | call (handler : τ) : s.destroyer ≠ .returned →
      Moves s (.call handler) { s with callers := s.callers ++ [.ready handler] }
  | destroy : s.destroyer = .notCalled →
      Moves s .destroy { s with terminated := true, destroyer := .notify }
  | leave (i : Nat) (woken : Option Sleeper) : s.workers[i]? = some (.ready ()) →
      s.terminated = true → Moves s (.worker i woken) (s.setWorker i (.out .returned))
  | sleep (i : Nat) (woken : Option Sleeper) : s.workers[i]? = some (.ready ()) →
      s.terminated = false → s.queue = [] → Moves s (.worker i woken) (s.setWorker i (.waiting ()))
  | take (i : Nat) (woken : Option Sleeper) (handler : τ) (queue : List τ) {s' : Pool τ} :
      s.workers[i]? = some (.ready ()) → s.terminated = false → s.queue = handler :: queue →
      Notifies { s.setWorker i (.out (.run handler)) with
        queue := queue, started := s.started ++ [handler] } s' → Moves s (.worker i woken) s'
  | run (i : Nat) (woken : Option Sleeper) (handler : τ) :
      s.workers[i]? = some (.out (.run handler)) →
      Moves s (.worker i woken) { s.setWorker i (.ready ()) with finished := s.finished ++ [handler] }
  | refuse (i : Nat) (woken : Option Sleeper) (handler : τ) : s.callers[i]? = some (.ready handler) →
      s.terminated = true → Moves s (.caller i woken) (s.setCaller i (.out .thrown))
  | accept (i : Nat) (woken : Option Sleeper) (handler : τ) : s.callers[i]? = some (.ready handler) →
      s.terminated = false → s.queue.length < 8 →
      Moves s (.caller i woken) { s.setCaller i (.out .notify) with
        queue := s.queue ++ [handler], accepted := s.accepted ++ [handler] }
  | full (i : Nat) (woken : Option Sleeper) (handler : τ) : s.callers[i]? = some (.ready handler) →
      s.terminated = false → 8 ≤ s.queue.length →
      Moves s (.caller i woken) (s.setCaller i (.waiting handler))
  | tell (i : Nat) (woken : Option Sleeper) {s' : Pool τ} : s.callers[i]? = some (.out .notify) →
      Notifies (s.setCaller i (.out .returned)) s' → Moves s (.caller i woken) s'
  | stopped : s.destroyer = .notify → Moves s .destroyer { s.notifyAll with destroyer := .join }
  | joined : s.destroyer = .join → (∀ w ∈ s.workers, w = .out .returned) →
      Moves s .destroyer { s with destroyer := .returned }
  | wake (sleeper : Sleeper) {s' : Pool τ} : s.Wakes s' → Moves s (.wake sleeper) s'

theorem wakes_of_wake {s s' : Pool τ} {sleeper : Sleeper} (h : s.wake sleeper = some s') :
    s.Wakes s' := by
  cases sleeper with
  | worker i =>
    rw [wake] at h
    split at h
    · next hi =>
      cases h
      exact .worker i hi
    · cases h
  | caller i =>
    rw [wake] at h
    split at h
    · next handler hi =>
      cases h
      exact .caller i handler hi
    · cases h

theorem notifies_of_notifyOne {s s' : Pool τ} {woken : Option Sleeper}
    (h : s.notifyOne woken = some s') : s.Notifies s' := by
  cases woken with
  | some sleeper => exact .one (wakes_of_wake h)
  | none =>
    rw [notifyOne] at h
    split at h
    · cases h
    · next hnone =>
      cases h
      rw [Bool.or_eq_true, not_or, List.any_eq_true, List.any_eq_true] at hnone
      refine .nobody (fun w hw heq => hnone.1 ⟨w, hw, ?_⟩) fun c hc handler heq =>
        hnone.2 ⟨c, hc, ?_⟩
      · rw [heq]
        rfl
      · rw [heq]
        rfl

theorem moves_of_step {s s' : Pool τ} {a : Action τ} (h : s.step a = some s') : s.Moves a s' := by
  cases a with
  | call handler =>
    rw [step] at h
    split at h
    · cases h
    · cases h
      exact .call handler ‹_›
  | destroy =>
    rw [step] at h
    split at h
    · cases h
      exact .destroy ‹_›
    · cases h
  | worker i woken =>
    rw [step, workerStep] at h
    split at h
    · next hi =>
      split at h
      · next hterm =>
        cases h
        exact .leave i woken hi hterm
      · next hterm =>
        have hlive := Bool.eq_false_iff.mpr hterm
        split at h
        · next hqueue =>
          cases h
          exact .sleep i woken hi hlive hqueue
        · next handler queue hqueue =>
          exact .take i woken handler queue hi hlive hqueue (notifies_of_notifyOne h)
    · next handler hi =>
      cases h
      exact .run i woken handler hi
    · cases h
  | caller i woken =>
    rw [step, callerStep] at h
    split at h
    · next handler hi =>
      split at h
      · next hgo =>
        split at h
        · next hterm =>
          cases h
          exact .refuse i woken handler hi hterm
        · next hterm =>
          cases h
          exact .accept i woken handler hi (Bool.eq_false_iff.mpr hterm) (by simpa [hterm] using hgo)
      · next hwait =>
        cases h
        rw [Bool.or_eq_true, not_or] at hwait
        exact .full i woken handler hi (Bool.eq_false_iff.mpr hwait.1) (by simpa using hwait.2)
    · next hi => exact .tell i woken hi (notifies_of_notifyOne h)
    · cases h
  | destroyer =>
    rw [step, destroyerStep] at h
    split at h
    · next hd =>
      cases h
      exact .stopped hd
    · next hd =>
      split at h
      · next hall =>
        cases h
        refine .joined hd fun w hw => ?_
        have hreturned := hall w hw
        split at hreturned
        · rfl
        · cases hreturned
      · cases h
    · cases h
  | wake sleeper => exact .wake sleeper (wakes_of_wake h)

/-! ## What becomes of the handlers -/

/-- The handler a worker has in hand. -/
def inHand : WorkerAt τ → Option τ
  | .run handler => some handler
  | .returned => none

/-- No handler is run twice, and none is lost as long as the pool lives. -/
structure Counted (s : Pool τ) : Prop where
  fifo : s.accepted = s.started ++ s.queue
  once : (held inHand s.workers ++ s.finished).Perm s.started
  room : s.queue.length ≤ 8
  joined : s.destroyer = .returned → ∀ w ∈ s.workers, w = .out .returned

section

variable {s s' : Pool τ} {a : Action τ} {i : Nat}

theorem counted_new (size : Nat) : Counted (new size : Pool τ) where
  fifo := rfl
  once := by
    have hready : held inHand (List.replicate size (.ready () : Worker τ)) = [] := by
      rw [held, List.filterMap_eq_nil_iff]
      intro p hp
      rw [List.eq_of_mem_replicate hp]
    show (held inHand (List.replicate size (.ready ())) ++ []).Perm []
    rw [hready]
    exact List.Perm.refl _
  room := Nat.zero_le _
  joined := fun h => by simp [new] at h

theorem Counted.setCaller (h : s.Counted) (c : Caller τ) : (s.setCaller i c).Counted :=
  ⟨h.fifo, h.once, h.room, h.joined⟩

/-- A worker goes on with the handler it has in hand, or without one. -/
theorem Counted.setWorker (h : s.Counted) {w w' : Worker τ} (hi : s.workers[i]? = some w)
    (hheld : held inHand [w] = held inHand [w']) (hw : w ≠ .out .returned) :
    (s.setWorker i w').Counted where
  fifo := h.fifo
  once := by
    have hperm := held_set inHand hi w'
    rw [hheld] at hperm
    exact (((List.perm_append_left_iff _).mp hperm).append_right _).trans h.once
  room := h.room
  joined := fun hd => absurd (h.joined hd w (List.mem_of_getElem? hi)) hw

theorem Counted.wakes (h : s.Counted) (hwakes : s.Wakes s') : s'.Counted := by
  cases hwakes with
  | worker i hi => exact h.setWorker hi rfl nofun
  | caller i handler hi => exact h.setCaller _

theorem Counted.notifies (h : s.Counted) (hnotifies : s.Notifies s') : s'.Counted := by
  cases hnotifies with
  | one hwakes => exact h.wakes hwakes
  | nobody => exact h

theorem Counted.not_joined (h : s.Counted) {w : Worker τ} (hi : s.workers[i]? = some w)
    (hw : w ≠ .out .returned) : s.destroyer ≠ .returned :=
  fun hd => hw (h.joined hd w (List.mem_of_getElem? hi))

theorem Counted.step (h : s.Counted) (hstep : s.Moves a s') : s'.Counted := by
  cases hstep with
  | call handler hd => exact ⟨h.fifo, h.once, h.room, h.joined⟩
  | destroy hd => exact ⟨h.fifo, h.once, h.room, nofun⟩
  | leave i woken hi hterm => exact h.setWorker hi rfl nofun
  | sleep i woken hi hterm hqueue => exact h.setWorker hi rfl nofun
  | take i woken handler queue hi hterm hqueue hnotifies =>
    have hroom := h.room
    rw [hqueue] at hroom
    have hperm := held_set inHand hi (.out (.run handler))
    refine Counted.notifies ⟨?_, ?_, Nat.le_of_succ_le hroom, ?_⟩ hnotifies
    · show s.accepted = s.started ++ [handler] ++ queue
      rw [h.fifo, hqueue, List.append_cons]
    · calc (held inHand (s.workers.set i (.out (.run handler))) ++ s.finished).Perm
            (handler :: held inHand s.workers ++ s.finished) := hperm.append_right _
        _ |>.Perm (s.started ++ [handler]) :=
          (h.once.cons handler).trans (List.perm_append_singleton handler s.started).symm
    · exact fun hd => absurd hd (h.not_joined hi nofun)
  | run i woken handler hi =>
    have hperm := held_set inHand hi (.ready ())
    refine ⟨h.fifo, ?_, h.room, fun hd => absurd hd (h.not_joined hi nofun)⟩
    show (held inHand (s.workers.set i (.ready ())) ++ (s.finished ++ [handler])).Perm s.started
    rw [← List.append_assoc]
    exact (List.perm_append_singleton handler _).trans ((hperm.append_right _).trans h.once)
  | refuse i woken handler hi hterm => exact h.setCaller _
  | accept i woken handler hi hterm hroom =>
    refine ⟨?_, h.once, ?_, h.joined⟩
    · show s.accepted ++ [handler] = s.started ++ (s.queue ++ [handler])
      rw [h.fifo, List.append_assoc]
    · show (s.queue ++ [handler]).length ≤ 8
      rw [List.length_append]
      exact hroom
  | full i woken handler hi hterm hfull => exact h.setCaller _
  | tell i woken hi hnotifies => exact (h.setCaller _).notifies hnotifies
  | stopped hd =>
    refine ⟨h.fifo, ?_, h.room, nofun⟩
    show (held inHand (wakeAll s.workers) ++ s.finished).Perm s.started
    rw [held_wakeAll]
    exact h.once
  | joined hd hall => exact ⟨h.fifo, h.once, h.room, fun _ => hall⟩
  | wake sleeper hwakes => exact h.wakes hwakes

theorem Wakes.frame (h : s.Wakes s') : s'.queue = s.queue ∧ s'.terminated = s.terminated ∧
    s'.started = s.started ∧ s'.accepted = s.accepted ∧ s'.destroyer = s.destroyer := by
  cases h <;> exact ⟨rfl, rfl, rfl, rfl, rfl⟩

theorem Notifies.frame (h : s.Notifies s') : s'.queue = s.queue ∧ s'.terminated = s.terminated ∧
    s'.started = s.started ∧ s'.accepted = s.accepted ∧ s'.destroyer = s.destroyer := by
  cases h with
  | one hwakes => exact hwakes.frame
  | nobody => exact ⟨rfl, rfl, rfl, rfl, rfl⟩

/-- Nothing is taken from the queue of a pool that is terminated, and nothing put into it. -/
theorem closed_of_moves (h : s.Moves a s') (hterm : s.terminated = true) :
    s'.terminated = true ∧ s'.queue = s.queue ∧ s'.started = s.started ∧ s'.accepted = s.accepted := by
  cases h with
  | destroy hd => exact ⟨rfl, rfl, rfl, rfl⟩
  | take i woken handler queue hi hlive hqueue hnotifies => exact absurd (hlive.symm.trans hterm) nofun
  | accept i woken handler hi hlive hroom => exact absurd (hlive.symm.trans hterm) nofun
  | tell i woken hi hnotifies =>
    obtain ⟨hqueue, hterm', hstarted, haccepted, -⟩ := hnotifies.frame
    exact ⟨hterm'.trans hterm, hqueue, hstarted, haccepted⟩
  | wake sleeper hwakes =>
    obtain ⟨hqueue, hterm', hstarted, haccepted, -⟩ := hwakes.frame
    exact ⟨hterm'.trans hterm, hqueue, hstarted, haccepted⟩
  | _ => exact ⟨hterm, rfl, rfl, rfl⟩

theorem closed_of_run {as : List (Action τ)} (hrun : runSteps step s as = some s')
    (hterm : s.terminated = true) :
    s'.terminated = true ∧ s'.queue = s.queue ∧ s'.started = s.started ∧ s'.accepted = s.accepted :=
  runSteps_inv (I := fun t => t.terminated = true ∧ t.queue = s.queue ∧ t.started = s.started ∧
    t.accepted = s.accepted) (fun t a t' h hone => by
      obtain ⟨hterm', hqueue, hstarted, haccepted⟩ := closed_of_moves (moves_of_step hone) h.1
      exact ⟨hterm', hqueue.trans h.2.1, hstarted.trans h.2.2.1, haccepted.trans h.2.2.2⟩)
    ⟨hterm, rfl, rfl, rfl⟩ hrun

theorem counted_of_run {size : Nat} {as : List (Action τ)}
    (hrun : runSteps step (new size) as = some s) : s.Counted :=
  runSteps_inv (fun _ _ _ h hone => h.step (moves_of_step hone)) (counted_new size) hrun

/-- **What becomes of handlers**, whatever has happened so far: they are started in the order in which
they were accepted, and those that were started are in hand or finished, each once. What is in the queue
when the pool is terminated stays there; when the destructor has returned, all that was taken from it has
been run. -/
theorem handlers_kept {size : Nat} {as bs : List (Action τ)} {s s' : Pool τ}
    (hrun : runSteps step (new size) as = some s) (hlater : runSteps step s bs = some s') :
    s.accepted = s.started ++ s.queue ∧ s.queue.length ≤ 8 ∧
      (held inHand s.workers ++ s.finished).Perm s.started ∧
      (s.terminated = true → s'.accepted = s.accepted ∧ s'.queue = s.queue ∧
        (s'.destroyer = .returned → (s'.finished ++ s.queue).Perm s.accepted)) := by
  have hcounted := counted_of_run hrun
  refine ⟨hcounted.fifo, hcounted.room, hcounted.once, fun hterm => ?_⟩
  obtain ⟨-, hqueue, hstarted, haccepted⟩ := closed_of_run hlater hterm
  refine ⟨haccepted, hqueue, fun hd => ?_⟩
  have hrun' : runSteps step (new size) (as ++ bs) = some s' := by
    rw [runSteps_append, hrun]
    exact hlater
  have hcounted' := counted_of_run hrun'
  have hheld : held inHand s'.workers = [] := by
    rw [held, List.filterMap_eq_nil_iff]
    intro w hw
    rw [hcounted'.joined hd w hw]
    rfl
  have honce := hcounted'.once
  rw [hheld, List.nil_append, hstarted] at honce
  rw [hcounted.fifo]
  exact honce.append_right _

/-- A handler that the pool is terminated on. -/
theorem handlers_kept_dropped : ∃ s s' : Pool Nat,
    runSteps step (new 1) [.call 7, .caller 0 none, .destroy] = some s ∧
    runSteps step s [.caller 0 none, .worker 0 none, .destroyer, .destroyer] = some s' ∧
    s.accepted = [7] ∧ s'.finished = [] ∧ (s'.finished ++ s.queue).Perm s.accepted :=
  ⟨_, _, rfl, rfl, rfl, rfl, ((@handlers_kept Nat 1 [.call 7, .caller 0 none, .destroy]
    [.caller 0 none, .worker 0 none, .destroyer, .destroyer] _ _ rfl rfl).2.2.2 rfl).2.2 rfl⟩

/-! ## One caller at a time -/

/-- The call has not come back. -/
def isOn : Caller τ → Bool
  | .out .returned => false
  | .out .thrown => false
  | _ => true

/-- Nobody calls `Enqueue` before the last call has come back. -/
def OneByOne (s : Pool τ) (a : Action τ) : Prop :=
  ∀ handler, a = .call handler → ∀ c ∈ s.callers, isOn c = false

/-- The workers that sleep. -/
def asleep (s : Pool τ) : Nat := s.workers.countP isWaiting

/-- Nobody sleeps. -/
def Awake (s : Pool τ) : Prop :=
  .waiting () ∉ s.workers ∧ ∀ handler, .waiting handler ∉ s.callers

/-- For each handler in the queue a worker has been woken, as long as there was one to wake. -/
def Roused (s : Pool τ) : Prop :=
  s.asleep = 0 ∨ s.asleep + s.queue.length ≤ s.workers.length ∨
    .out .notify ∈ s.callers ∧ s.asleep + s.queue.length ≤ s.workers.length + 1

/-- While the caller sleeps there is something for a worker to do, and each worker woken in its place
is one that slept when the queue was full. -/
def Patient (s : Pool τ) : Prop :=
  0 < s.queue.length ∧ (s.asleep = 0 ∨ s.asleep + 16 ≤ s.workers.length + s.queue.length)

/-- A pool with one caller. -/
structure Steady (s : Pool τ) : Prop where
  alone : s.callers.countP isOn ≤ 1
  roused : s.terminated = false → s.Roused
  patient : s.terminated = false → ∀ handler, .waiting handler ∈ s.callers → s.Patient

/-- Nobody sleeps when the pool has been terminated and all have been told. -/
structure Ending (s : Pool τ) : Prop where
  stopped : s.terminated = true ↔ s.destroyer ≠ .notCalled
  left : .out .returned ∈ s.workers → s.terminated = true
  dying : s.terminated = true → s.destroyer = .notify ∨ s.Awake

/-! ### When the pool is terminated -/

theorem Awake.setWorker (h : s.Awake) {w : Worker τ} (hw : w ≠ .waiting ()) :
    (s.setWorker i w).Awake :=
  ⟨fun hmem => (List.mem_or_eq_of_mem_set hmem).elim h.1 fun heq => hw heq.symm, h.2⟩

theorem Awake.setCaller (h : s.Awake) {c : Caller τ} (hc : ∀ handler, c ≠ .waiting handler) :
    (s.setCaller i c).Awake :=
  ⟨h.1, fun handler hmem =>
    (List.mem_or_eq_of_mem_set hmem).elim (h.2 handler) fun heq => hc handler heq.symm⟩

theorem Ending.setWorker (h : s.Ending) {w : Worker τ} (hw : w ≠ .waiting ())
    (hleft : w = .out .returned → s.terminated = true) : (s.setWorker i w).Ending where
  stopped := h.stopped
  left := fun hmem => (List.mem_or_eq_of_mem_set hmem).elim h.left fun heq => hleft heq.symm
  dying := fun hterm => (h.dying hterm).imp_right fun hawake => hawake.setWorker hw

theorem Ending.setCaller (h : s.Ending) {c : Caller τ} (hc : ∀ handler, c ≠ .waiting handler) :
    (s.setCaller i c).Ending where
  stopped := h.stopped
  left := h.left
  dying := fun hterm => (h.dying hterm).imp_right fun hawake => hawake.setCaller hc

theorem Ending.wakes (h : s.Ending) (hwakes : s.Wakes s') : s'.Ending := by
  cases hwakes with
  | worker i hi => exact h.setWorker nofun nofun
  | caller i handler hi => exact h.setCaller nofun

theorem Ending.notifies (h : s.Ending) (hnotifies : s.Notifies s') : s'.Ending := by
  cases hnotifies with
  | one hwakes => exact h.wakes hwakes
  | nobody => exact h

theorem Ending.step (h : s.Ending) (hstep : s.Moves a s') : s'.Ending := by
  cases hstep with
  | call handler hd =>
    refine ⟨h.stopped, h.left, fun hterm => (h.dying hterm).imp_right fun hawake => ⟨hawake.1, ?_⟩⟩
    intro handler' hmem
    rcases List.mem_append.mp hmem with hmem | hmem
    · exact hawake.2 handler' hmem
    · cases List.mem_singleton.mp hmem
  | destroy hd => exact ⟨by simp, fun _ => rfl, fun _ => Or.inl rfl⟩
  | leave i woken hi hterm => exact h.setWorker nofun fun _ => hterm
  | sleep i woken hi hlive hqueue =>
    refine ⟨h.stopped, fun hmem => ?_, fun hterm => absurd (hlive.symm.trans hterm) nofun⟩
    rcases List.mem_or_eq_of_mem_set hmem with hmem | heq
    · exact h.left hmem
    · cases heq
  | take i woken handler queue hi hlive hqueue hnotifies =>
    have hset := h.setWorker (i := i) (w := .out (.run handler)) nofun nofun
    refine Ending.notifies ?_ hnotifies
    exact ⟨hset.stopped, hset.left, hset.dying⟩
  | run i woken handler hi =>
    have hset := h.setWorker (i := i) (w := .ready ()) nofun nofun
    exact ⟨hset.stopped, hset.left, hset.dying⟩
  | refuse i woken handler hi hterm => exact h.setCaller nofun
  | accept i woken handler hi hlive hroom =>
    have hset := h.setCaller (i := i) (c := .out .notify) nofun
    exact ⟨hset.stopped, hset.left, hset.dying⟩
  | full i woken handler hi hlive hfull =>
    exact ⟨h.stopped, h.left, fun hterm => absurd (hlive.symm.trans hterm) nofun⟩
  | tell i woken hi hnotifies =>
    exact (h.setCaller (c := .out .returned) nofun).notifies hnotifies
  | stopped hd =>
    have hterm := h.stopped.mpr (by rw [hd]; nofun)
    refine ⟨⟨fun _ => nofun, fun _ => hterm⟩, fun _ => hterm, fun _ => Or.inr ⟨?_, fun handler => ?_⟩⟩
    · exact waiting_not_mem_wakeAll ()
    · exact waiting_not_mem_wakeAll handler
  | joined hd hall =>
    have hterm := h.stopped.mpr (by rw [hd]; nofun)
    refine ⟨⟨fun _ => nofun, fun _ => hterm⟩, fun _ => hterm, fun _ => Or.inr ?_⟩
    exact (h.dying hterm).resolve_left (by rw [hd]; nofun)
  | wake sleeper hwakes => exact h.wakes hwakes

/-! ### While the pool lives -/

theorem Steady.eq_of_isOn (h : s.Steady) {c d : Caller τ} (hc : c ∈ s.callers) (hd : d ∈ s.callers)
    (hc' : isOn c = true) (hd' : isOn d = true) : c = d :=
  eq_of_countP_le_one h.alone hc hd hc' hd'

theorem alone_setCaller (h : s.callers.countP isOn ≤ 1) {c : Caller τ}
    (hi : s.callers[i]? = some c) (hc : isOn c = true) (c' : Caller τ) :
    (s.setCaller i c').callers.countP isOn ≤ 1 := by
  have hcount := countP_set isOn hi c'
  rw [if_pos hc] at hcount
  show (s.callers.set i c').countP isOn ≤ 1
  split at hcount <;> omega

theorem asleep_setWorker {w w' : Worker τ} (hi : s.workers[i]? = some w)
    (hw : w.isWaiting = w'.isWaiting) : (s.setWorker i w').asleep = s.asleep := by
  have hcount := countP_set isWaiting hi w'
  rw [hw] at hcount
  exact Nat.add_left_cancel hcount

/-- Somebody is woken: a worker, or the caller. -/
theorem Wakes.cases (h : s.Wakes s') :
    (s'.asleep + 1 = s.asleep ∧ s'.callers = s.callers ∧ s'.workers.length = s.workers.length) ∨
      (s'.asleep = s.asleep ∧ s'.workers.length = s.workers.length ∧
        ∃ i handler, s.callers[i]? = some (.waiting handler) ∧
          s'.callers = s.callers.set i (.ready handler)) := by
  cases h with
  | worker i hi =>
    have hcount := countP_set isWaiting hi (.ready ())
    refine Or.inl ⟨?_, rfl, List.length_set ..⟩
    show (s.workers.set i (.ready ())).countP isWaiting + 1 = s.workers.countP isWaiting
    simp only [isWaiting, if_true, Bool.false_eq_true, if_false] at hcount
    omega
  | caller i handler hi => exact Or.inr ⟨rfl, rfl, i, handler, hi, rfl⟩

/-- What is said of a pool with one caller, in numbers: `k` workers of `n` sleep, and there are `q`
handlers in the queue. -/
theorem Roused.mono (h : s.Roused) (hasleep : s'.asleep ≤ s.asleep)
    (hqueue : s'.queue.length ≤ s.queue.length) (hworkers : s'.workers.length = s.workers.length)
    (hnotify : .out .notify ∈ s.callers → .out .notify ∈ s'.callers) : s'.Roused := by
  rcases h with h | h | ⟨hmem, h⟩
  · exact Or.inl (by omega)
  · exact Or.inr (Or.inl (by omega))
  · exact Or.inr (Or.inr ⟨hnotify hmem, by omega⟩)

theorem Patient.mono (h : s.Patient) (hasleep : s'.asleep ≤ s.asleep)
    (hqueue : s'.queue = s.queue) (hworkers : s'.workers.length = s.workers.length) : s'.Patient := by
  obtain ⟨hpos, h⟩ := h
  rw [Patient, hqueue, hworkers]
  exact ⟨hpos, by omega⟩

/-- To wake somebody does no harm. -/
theorem Steady.wakes (h : s.Steady) (hwakes : s.Wakes s') : s'.Steady := by
  obtain ⟨hqueue, hterm, -, -, -⟩ := hwakes.frame
  rcases hwakes.cases with ⟨hasleep, hcallers, hworkers⟩ | ⟨hasleep, hworkers, i, handler, hi, hcallers⟩
  · refine ⟨hcallers ▸ h.alone, fun hlive => ?_, fun hlive handler hmem => ?_⟩
    · exact (h.roused (hterm ▸ hlive)).mono (by omega) (Nat.le_of_eq (congrArg List.length hqueue))
        hworkers (hcallers ▸ id)
    · exact (h.patient (hterm ▸ hlive) handler (hcallers ▸ hmem)).mono (by omega) hqueue hworkers
  · have halone := alone_setCaller h.alone hi rfl (.ready handler)
    refine ⟨hcallers ▸ halone, fun hlive => ?_, fun hlive handler' hmem => ?_⟩
    · refine (h.roused (hterm ▸ hlive)).mono (by omega) (Nat.le_of_eq (congrArg List.length hqueue))
        hworkers fun hnotify => ?_
      rw [hcallers]
      exact mem_set_of_ne hi hnotify nofun
    · refine (h.patient (hterm ▸ hlive) handler (List.mem_of_getElem? hi)).mono (by omega) hqueue hworkers

theorem Steady.notifies (h : s.Steady) (hnotifies : s.Notifies s') : s'.Steady := by
  cases hnotifies with
  | one hwakes => exact h.wakes hwakes
  | nobody => exact h

/-- **A worker takes a handler** and wakes somebody. If that is a worker although the caller sleeps, there
are still handlers enough. -/
theorem Steady.take (h : s.Steady) (hsize : s.workers.length < 16) {handler : τ} {queue : List τ}
    (hi : s.workers[i]? = some (.ready ())) (hlive : s.terminated = false)
    (hqueue : s.queue = handler :: queue)
    (hnotifies : Notifies { s.setWorker i (.out (.run handler)) with
      queue := queue, started := s.started ++ [handler] } s') : s'.Steady := by
  have hroused := h.roused hlive
  have hpatient := h.patient hlive
  have hasleep : (s.setWorker i (.out (.run handler))).asleep = s.asleep := asleep_setWorker hi rfl
  have hlength : (s.setWorker i (.out (.run handler))).workers.length = s.workers.length :=
    List.length_set ..
  have hfewer : s.queue.length = queue.length + 1 := by rw [hqueue, List.length_cons]
  cases hnotifies with
  | one hwakes =>
    have hqueue' := congrArg List.length hwakes.frame.1
    rcases hwakes.cases with ⟨hone, hcallers, hworkers⟩ | ⟨hsame, hworkers, j, handler', hj, hcallers⟩
    · change s'.asleep + 1 = (s.setWorker i _).asleep at hone
      change s'.workers.length = (s.setWorker i _).workers.length at hworkers
      change s'.callers = s.callers at hcallers
      change s'.queue.length = queue.length at hqueue'
      refine ⟨hcallers ▸ h.alone, fun _ => ?_, fun _ handler'' hmem => ?_⟩
      · exact hroused.mono (by omega) (by omega) (by omega) (hcallers ▸ id)
      · obtain ⟨hpos, hbound⟩ := hpatient handler'' (hcallers ▸ hmem)
        exact ⟨by omega, by omega⟩
    · change s'.asleep = (s.setWorker i _).asleep at hsame
      change s'.workers.length = (s.setWorker i _).workers.length at hworkers
      change s.callers[j]? = _ at hj
      change s'.callers = s.callers.set j _ at hcallers
      change s'.queue.length = queue.length at hqueue'
      have halone : s'.callers.countP isOn ≤ 1 := hcallers ▸ alone_setCaller h.alone hj rfl _
      refine ⟨halone, fun _ => ?_, fun _ handler'' hmem => ?_⟩
      · refine hroused.mono (by omega) (by omega) (by omega) fun hnotify => ?_
        rw [hcallers]
        exact mem_set_of_ne hj hnotify nofun
      · -- The caller is awake, and it is the only one.
        have hready : .ready handler' ∈ s'.callers := hcallers ▸ mem_set_self_of_getElem? hj
        cases eq_of_countP_le_one halone hmem hready rfl rfl
  | nobody hw hc =>
    refine ⟨h.alone, fun _ => ?_, fun _ handler'' hmem => absurd rfl (hc _ hmem handler'')⟩
    exact hroused.mono (Nat.le_of_eq hasleep) (by rw [hfewer]; exact Nat.le_succ _) hlength id

/-- **The caller wakes somebody** for the handler it has brought. -/
theorem Steady.tell (h : s.Steady) (hi : s.callers[i]? = some (.out .notify))
    (hnotifies : Notifies (s.setCaller i (.out .returned)) s') : s'.Steady := by
  have hnone : ∀ c ∈ (s.setCaller i (.out .returned)).callers, isOn c = false := by
    have hcount := countP_set isOn hi (.out .returned)
    simp only [isOn, if_true, Bool.false_eq_true, if_false] at hcount
    have halone := h.alone
    have hzero : (s.callers.set i (.out .returned)).countP isOn = 0 := by omega
    intro c hc
    exact Bool.eq_false_iff.mpr (List.countP_eq_zero.mp hzero c hc)
  have halone : (s.setCaller i (.out .returned)).callers.countP isOn ≤ 1 :=
    alone_setCaller h.alone hi rfl _
  cases hnotifies with
  | one hwakes =>
    have hqueue := congrArg List.length hwakes.frame.1
    have hterm := hwakes.frame.2.1
    rcases hwakes.cases with ⟨hone, hcallers, hworkers⟩ | ⟨-, -, j, handler, hj, -⟩
    · change s'.asleep + 1 = s.asleep at hone
      change s'.workers.length = s.workers.length at hworkers
      change s'.queue.length = s.queue.length at hqueue
      refine ⟨hcallers ▸ halone, fun hlive => ?_, fun _ handler hmem => ?_⟩
      · rcases h.roused (hterm ▸ hlive) with hroused | hroused | ⟨-, hroused⟩
        · omega
        · exact Or.inr (Or.inl (by omega))
        · exact Or.inr (Or.inl (by omega))
      · rw [hcallers] at hmem
        exact absurd (hnone _ hmem) nofun
    · exact absurd (hnone _ (List.mem_of_getElem? hj)) nofun
  | nobody hw hc =>
    refine ⟨halone, fun _ => Or.inl ?_, fun _ handler hmem => absurd rfl (hc _ hmem handler)⟩
    refine List.countP_eq_zero.mpr fun w hmem hwaiting => ?_
    cases w with
    | waiting u => exact hw _ hmem rfl
    | _ => cases hwaiting

theorem Steady.step (h : s.Steady) (hending : s.Ending) (hsize : s.workers.length < 16)
    (hone : s.OneByOne a) (hstep : s.Moves a s') : s'.Steady := by
  cases hstep with
  | call handler hd =>
    have hzero : s.callers.countP isOn = 0 :=
      List.countP_eq_zero.mpr fun c hc => Bool.eq_false_iff.mp (hone handler rfl c hc)
    refine ⟨?_, fun hlive => ?_, fun hlive handler' hmem => ?_⟩
    · rw [List.countP_append, hzero]
      exact Nat.le_refl _
    · exact (h.roused hlive).mono (Nat.le_refl _) (Nat.le_refl _) rfl (List.mem_append_left _)
    · rcases List.mem_append.mp hmem with hmem | hmem
      · exact h.patient hlive handler' hmem
      · cases List.mem_singleton.mp hmem
  | destroy hd => exact ⟨h.alone, nofun, nofun⟩
  | leave i woken hi hterm =>
    exact ⟨h.alone, fun hlive => absurd (hlive.symm.trans hterm) nofun,
      fun hlive => absurd (hlive.symm.trans hterm) nofun⟩
  | sleep i woken hi hlive hqueue =>
    refine ⟨h.alone, fun _ => Or.inr (Or.inl ?_), fun _ handler hmem => ?_⟩
    · show (s.workers.set i _).countP isWaiting + s.queue.length ≤ (s.workers.set i _).length
      rw [hqueue]
      exact List.countP_le_length
    · have hpos := (h.patient hlive handler hmem).1
      rw [hqueue] at hpos
      exact absurd hpos (Nat.lt_irrefl 0)
  | take i woken handler queue hi hlive hqueue hnotifies => exact h.take hsize hi hlive hqueue hnotifies
  | run i woken handler hi =>
    have hasleep : (s.setWorker i (.ready ())).asleep = s.asleep := asleep_setWorker hi rfl
    have hlength : (s.setWorker i (.ready ())).workers.length = s.workers.length := List.length_set ..
    refine ⟨h.alone, fun hlive => ?_, fun hlive handler' hmem => ?_⟩
    · exact (h.roused hlive).mono (Nat.le_of_eq hasleep) (Nat.le_refl _) hlength id
    · exact (h.patient hlive handler' hmem).mono (Nat.le_of_eq hasleep) rfl hlength
  | refuse i woken handler hi hterm =>
    exact ⟨alone_setCaller h.alone hi rfl _, fun hlive => absurd (hlive.symm.trans hterm) nofun,
      fun hlive => absurd (hlive.symm.trans hterm) nofun⟩
  | accept i woken handler hi hlive hroom =>
    have halone := alone_setCaller h.alone hi rfl (.out .notify)
    have hmine : .out .notify ∈ s.callers.set i (.out .notify) := mem_set_self_of_getElem? hi
    refine ⟨halone, fun _ => ?_, fun _ handler' hmem => ?_⟩
    · have hlength : (s.queue ++ [handler]).length = s.queue.length + 1 := by simp
      rcases h.roused hlive with hroused | hroused | ⟨hmem, -⟩
      · exact Or.inl hroused
      · exact Or.inr (Or.inr ⟨hmine, by
          show s.asleep + (s.queue ++ [handler]).length ≤ s.workers.length + 1
          omega⟩)
      · cases h.eq_of_isOn hmem (List.mem_of_getElem? hi) rfl rfl
    · cases eq_of_countP_le_one halone hmem hmine rfl rfl
  | full i woken handler hi hlive hfull =>
    refine ⟨alone_setCaller h.alone hi rfl _, fun _ => ?_, fun _ handler' hmem => ⟨?_, ?_⟩⟩
    · exact (h.roused hlive).mono (Nat.le_refl _) (Nat.le_refl _) rfl fun hmem =>
        mem_set_of_ne hi hmem nofun
    · exact Nat.lt_of_lt_of_le (by decide) hfull
    · show s.asleep = 0 ∨ s.asleep + 16 ≤ s.workers.length + s.queue.length
      rcases h.roused hlive with hroused | hroused | ⟨hmem, -⟩
      · exact Or.inl hroused
      · exact Or.inr (by omega)
      · cases h.eq_of_isOn hmem (List.mem_of_getElem? hi) rfl rfl
  | tell i woken hi hnotifies => exact h.tell hi hnotifies
  | stopped hd =>
    have hterm := hending.stopped.mpr (by rw [hd]; nofun)
    refine ⟨?_, fun hlive => absurd (hlive.symm.trans hterm) nofun,
      fun hlive => absurd (hlive.symm.trans hterm) nofun⟩
    show (wakeAll s.callers).countP isOn ≤ 1
    rw [wakeAll, List.countP_map, List.countP_congr (q := isOn) fun c _ => ?_]
    · exact h.alone
    · cases c <;> rfl
  | joined hd hall => exact ⟨h.alone, h.roused, h.patient⟩
  | wake sleeper hwakes => exact h.wakes hwakes

/-! ## Coming to rest -/

/-- What only happens because somebody outside wants it. -/
def Action.isFresh : Action τ → Bool
  | .call _ => true
  | .destroy => true
  | _ => false

/-- What happens for no reason. -/
def Action.isWake : Action τ → Bool
  | .wake _ => true
  | _ => false

def workerCost : WorkerAt τ → Nat
  | .run _ => 2
  | .returned => 0

def callerCost : CallerAt → Nat
  | .notify => 2
  | _ => 0

def destroyerCost (n : Nat) : Destroyer → Nat
  | .notify => n + 2
  | .join => 1
  | _ => 0

def crew (s : Pool τ) : Nat := s.workers.length + s.callers.length

/-- More than the steps that are left. -/
def due (s : Pool τ) : Nat :=
  costs 0 workerCost s.workers + costs 5 callerCost s.callers + 3 * s.queue.length +
    destroyerCost s.crew s.destroyer

theorem due_setWorker {w : Worker τ} (hi : s.workers[i]? = some w) (w' : Worker τ) :
    cost 0 workerCost w + (s.setWorker i w').due = cost 0 workerCost w' + s.due := by
  have hset := costs_set 0 workerCost hi w'
  simp only [due, crew, Pool.setWorker, List.length_set]
  omega

theorem due_setCaller {c : Caller τ} (hi : s.callers[i]? = some c) (c' : Caller τ) :
    cost 5 callerCost c + (s.setCaller i c').due = cost 5 callerCost c' + s.due := by
  have hset := costs_set 5 callerCost hi c'
  simp only [due, crew, Pool.setCaller, List.length_set]
  omega

theorem Wakes.due_eq (h : s.Wakes s') : s'.due = s.due + 1 := by
  cases h with
  | worker i hi =>
    have hset := due_setWorker hi (.ready ())
    simp only [cost] at hset
    omega
  | caller i handler hi =>
    have hset := due_setCaller hi (.ready handler)
    simp only [cost] at hset
    omega

theorem Notifies.due_le (h : s.Notifies s') : s'.due ≤ s.due + 1 := by
  cases h with
  | one hwakes => exact Nat.le_of_eq hwakes.due_eq
  | nobody => exact Nat.le_succ _

/-- **A step is paid for**, if it is not wanted from outside. -/
theorem due_of_moves (h : s.Moves a s') (hfresh : a.isFresh = false) :
    s'.due + 1 ≤ s.due + if a.isWake then 2 else 0 := by
  cases h with
  | call handler hd => cases hfresh
  | destroy hd => cases hfresh
  | leave i woken hi hterm =>
    have hset := due_setWorker hi (.out .returned)
    simp only [cost, workerCost, Action.isWake, Bool.false_eq_true, if_false] at hset ⊢
    omega
  | sleep i woken hi hlive hqueue =>
    have hset := due_setWorker hi (.waiting ())
    simp only [cost, Action.isWake, Bool.false_eq_true, if_false] at hset ⊢
    omega
  | take i woken handler queue hi hlive hqueue hnotifies =>
    have hset := due_setWorker hi (.out (.run handler))
    have hle := hnotifies.due_le
    simp only [cost, workerCost, due, crew, Pool.setWorker, hqueue, List.length_cons, List.length_set,
      Action.isWake, Bool.false_eq_true, if_false] at hset hle ⊢
    omega
  | run i woken handler hi =>
    have hset := due_setWorker hi (.ready ())
    simp only [cost, workerCost, due, crew, Action.isWake, Bool.false_eq_true, if_false] at hset ⊢
    omega
  | refuse i woken handler hi hterm =>
    have hset := due_setCaller hi (.out .thrown)
    simp only [cost, callerCost, Action.isWake, Bool.false_eq_true, if_false] at hset ⊢
    omega
  | accept i woken handler hi hlive hroom =>
    have hset := due_setCaller hi (.out .notify)
    simp only [cost, callerCost, due, crew, Pool.setCaller, List.length_append, List.length_singleton,
      List.length_set, Action.isWake, Bool.false_eq_true, if_false] at hset ⊢
    omega
  | full i woken handler hi hlive hfull =>
    have hset := due_setCaller hi (.waiting handler)
    simp only [cost, Action.isWake, Bool.false_eq_true, if_false] at hset ⊢
    omega
  | tell i woken hi hnotifies =>
    have hset := due_setCaller hi (.out .returned)
    have hle := hnotifies.due_le
    simp only [cost, callerCost, Action.isWake, Bool.false_eq_true, if_false] at hset ⊢
    omega
  | stopped hd =>
    have hworkers := costs_wakeAll_le 0 workerCost s.workers
    have hcallers := costs_wakeAll_le 5 callerCost s.callers
    simp only [due, crew, hd, notifyAll, destroyerCost, Action.isWake, Bool.false_eq_true, if_false]
    omega
  | joined hd hall =>
    simp only [due, hd, destroyerCost, Action.isWake, Bool.false_eq_true, if_false]
    omega
  | wake sleeper hwakes =>
    have heq := hwakes.due_eq
    simp only [Action.isWake, if_true]
    omega

/-! ## At rest -/

/-- Nobody can do anything unless he is wanted from outside, or woken for no reason. -/
def AtRest (s : Pool τ) : Prop :=
  (∀ i woken, s.workerStep i woken = none) ∧ (∀ i woken, s.callerStep i woken = none) ∧
    s.destroyerStep = none

/-- Every call has come back. Every handler accepted has been run, unless the pool has been terminated;
then the workers and the destructor have returned. -/
structure Settled (s : Pool τ) : Prop where
  calls : ∀ c ∈ s.callers, c = .out .returned ∨ c = .out .thrown
  ran : s.terminated = false → s.finished.Perm s.accepted
  gone : s.terminated = true → (∀ w ∈ s.workers, w = .out .returned) ∧ s.destroyer = .returned

/-- There is always somebody for `notify_one`, or nobody. -/
theorem exists_notifyOne (s : Pool τ) : ∃ woken s', s.notifyOne woken = some s' := by
  by_cases hworkers : s.workers.any isWaiting = true
  · obtain ⟨w, hw, hwaiting⟩ := List.any_eq_true.mp hworkers
    obtain ⟨i, hi⟩ := List.mem_iff_getElem?.mp hw
    cases w with
    | waiting u => exact ⟨some (.worker i), s.setWorker i (.ready ()), by rw [notifyOne, wake, hi]⟩
    | _ => cases hwaiting
  · by_cases hcallers : s.callers.any isWaiting = true
    · obtain ⟨c, hc, hwaiting⟩ := List.any_eq_true.mp hcallers
      obtain ⟨i, hi⟩ := List.mem_iff_getElem?.mp hc
      cases c with
      | waiting handler =>
        exact ⟨some (.caller i), s.setCaller i (.ready handler), by rw [notifyOne, wake, hi]⟩
      | _ => cases hwaiting
    · exact ⟨none, s, by rw [notifyOne, Bool.eq_false_iff.mpr hworkers,
        Bool.eq_false_iff.mpr hcallers]; rfl⟩

/-- Only sleepers and those who have returned have nothing to do. -/
theorem AtRest.worker (h : s.AtRest) {w : Worker τ} (hw : w ∈ s.workers) :
    w = .waiting () ∨ w = .out .returned := by
  obtain ⟨i, hi⟩ := List.mem_iff_getElem?.mp hw
  have hnone := h.1 i
  simp only [workerStep, hi] at hnone
  rcases w with _ | _ | handler | _
  · dsimp only at hnone
    split at hnone
    · cases hnone none
    · split at hnone
      · cases hnone none
      · next handler queue hqueue =>
        obtain ⟨woken, s', hwoken⟩ := exists_notifyOne
          { s.setWorker i (.out (.run handler)) with
            queue := queue, started := s.started ++ [handler] }
        exact absurd ((hnone woken).symm.trans hwoken) nofun
  · exact Or.inl rfl
  · cases hnone none
  · exact Or.inr rfl

theorem AtRest.caller (h : s.AtRest) {c : Caller τ} (hc : c ∈ s.callers) :
    (∃ handler, c = .waiting handler) ∨ c = .out .returned ∨ c = .out .thrown := by
  obtain ⟨i, hi⟩ := List.mem_iff_getElem?.mp hc
  have hnone := h.2.1 i
  simp only [callerStep, hi] at hnone
  rcases c with handler | handler | _ | _ | _
  · dsimp only at hnone
    split at hnone
    · split at hnone <;> cases hnone none
    · cases hnone none
  · exact Or.inl ⟨handler, rfl⟩
  · obtain ⟨woken, s', hwoken⟩ := exists_notifyOne (s.setCaller i (.out .returned))
    exact absurd ((hnone woken).symm.trans hwoken) nofun
  · exact Or.inr (Or.inl rfl)
  · exact Or.inr (Or.inr rfl)

theorem AtRest.held_eq (h : s.AtRest) : held inHand s.workers = [] := by
  rw [held, List.filterMap_eq_nil_iff]
  intro w hw
  rcases h.worker hw with rfl | rfl <;> rfl

theorem AtRest.asleep_eq (h : s.AtRest) (hending : s.Ending) (hlive : s.terminated = false) :
    s.asleep = s.workers.length := by
  refine List.countP_eq_length.mpr fun w hw => ?_
  rcases h.worker hw with rfl | rfl
  · rfl
  · exact absurd (hlive.symm.trans (hending.left hw)) nofun

theorem AtRest.queue_eq (h : s.AtRest) (hending : s.Ending) (hsteady : s.Steady)
    (hworkers : 0 < s.workers.length) (hlive : s.terminated = false) : s.queue = [] := by
  have hasleep := h.asleep_eq hending hlive
  refine List.eq_nil_of_length_eq_zero ?_
  rcases hsteady.roused hlive with hroused | hroused | ⟨hmem, -⟩
  · omega
  · omega
  · rcases h.caller hmem with ⟨handler, heq⟩ | heq | heq <;> cases heq

/-- Once the pool has been terminated everybody is awake, and so everybody has returned. -/
theorem AtRest.awake (h : s.AtRest) (hending : s.Ending) (hterm : s.terminated = true) : s.Awake := by
  refine (hending.dying hterm).resolve_left fun hd => ?_
  have hnone := h.2.2
  rw [destroyerStep, hd] at hnone
  cases hnone

theorem AtRest.settled (h : s.AtRest) (hcounted : s.Counted) (hending : s.Ending)
    (hsteady : s.Steady) (hworkers : 0 < s.workers.length) : s.Settled where
  calls := fun c hc => by
    rcases h.caller hc with ⟨handler, rfl⟩ | hc'
    · cases hterm : s.terminated with
      | false =>
        have hpos := (hsteady.patient hterm handler hc).1
        rw [h.queue_eq hending hsteady hworkers hterm] at hpos
        exact absurd hpos (Nat.lt_irrefl 0)
      | true => exact absurd hc ((h.awake hending hterm).2 handler)
    · exact hc'
  ran := fun hlive => by
    have honce := hcounted.once
    rw [h.held_eq, List.nil_append] at honce
    rw [hcounted.fifo, h.queue_eq hending hsteady hworkers hlive, List.append_nil]
    exact honce
  gone := fun hterm => by
    have hall : ∀ w ∈ s.workers, w = .out .returned := fun w hw => by
      rcases h.worker hw with rfl | rfl
      · exact absurd hw (h.awake hending hterm).1
      · rfl
    refine ⟨hall, ?_⟩
    have hcalled := hending.stopped.mp hterm
    have hnone := h.2.2
    rw [destroyerStep] at hnone
    split at hnone
    · cases hnone
    · rw [if_pos fun w hw => by rw [hall w hw]] at hnone
      cases hnone
    · next hnotify hjoin =>
      cases hd : s.destroyer with
      | notCalled => exact absurd hd hcalled
      | notify => exact absurd hd hnotify
      | join => exact absurd hd hjoin
      | returned => rfl

theorem length_workers_of_moves (h : s.Moves a s') : s'.workers.length = s.workers.length := by
  have hwakes : ∀ {t t' : Pool τ}, t.Wakes t' → t'.workers.length = t.workers.length := by
    intro t t' hwakes
    rcases hwakes.cases with ⟨-, -, hlength⟩ | ⟨-, hlength, -⟩ <;> exact hlength
  have hnotifies : ∀ {t t' : Pool τ}, t.Notifies t' → t'.workers.length = t.workers.length := by
    rintro t t' (h | -)
    · exact hwakes h
    · rfl
  cases h with
  | take i woken handler queue hi hlive hqueue hn => exact (hnotifies hn).trans (List.length_set ..)
  | tell i woken hi hn =>
    show s'.workers.length = (s.setCaller i (.out .returned)).workers.length
    exact hnotifies hn
  | stopped hd => exact length_wakeAll
  | wake sleeper hw => exact hwakes hw
  | _ => first | rfl | exact List.length_set ..

theorem ending_new (size : Nat) : Ending (new size : Pool τ) where
  stopped := by simp [new]
  left := fun hmem => by simp [new] at hmem
  dying := fun hterm => by simp [new] at hterm

theorem steady_new (size : Nat) : Steady (new size : Pool τ) where
  alone := Nat.zero_le _
  roused := fun _ => Or.inl (List.countP_eq_zero.mpr fun w hw hwaiting => by
    rw [List.eq_of_mem_replicate hw] at hwaiting
    cases hwaiting)
  patient := fun _ handler hmem => by simp [new] at hmem

/-- **Left alone the pool comes to rest**, after no more steps than are due and two for everybody woken
for no reason, and then everything is settled. -/
def Settles (s : Pool τ) : Prop :=
  ∀ (as : List (Action τ)) (s' : Pool τ), (∀ a ∈ as, a.isFresh = false) →
    runSteps step s as = some s' →
      as.length ≤ s.due + 2 * as.countP Action.isWake ∧ (s'.AtRest → s'.Settled)

/-- Fewer than 16 workers and one caller at a time. -/
theorem settles_of_one {size : Nat} (hpos : 0 < size) (hsize : size < 16) {as : List (Action τ)}
    (hone : Along step OneByOne (new size) as) (hrun : runSteps step (new size) as = some s) :
    s.Settles := by
  intro bs s' hfresh hlater
  have hpaid := length_run_le (g := Action.isWake) (fun _ _ _ hone => due_of_moves (moves_of_step hone)) hfresh hlater
  refine ⟨by omega, fun hrest => ?_⟩
  have hrun' : runSteps step (new size) (as ++ bs) = some s' := by
    rw [runSteps_append, hrun]
    exact hlater
  have hone' : Along step OneByOne (new size) (as ++ bs) :=
    hone.append fun t _ => Along.of_forall t fun b hb t' handler heq => by
      have hb' := hfresh b hb
      rw [heq] at hb'
      cases hb'
  have hinv := hone'.runSteps_inv
    (I := fun t => t.Ending ∧ t.Steady ∧ t.workers.length = size) (fun t a t' h hone hstep => by
      have hmoves := moves_of_step hstep
      refine ⟨h.1.step hmoves, h.2.1.step h.1 (h.2.2 ▸ hsize) hone hmoves, ?_⟩
      exact (length_workers_of_moves hmoves).trans h.2.2)
    ⟨ending_new size, steady_new size, List.length_replicate⟩ hrun'
  exact hrest.settled (counted_of_run hrun') hinv.1 hinv.2.1 (hinv.2.2.symm ▸ hpos)

/-! ## How 16 workers hang -/

/-- Workers that have nothing to do fall asleep. -/
theorem run_sleep (hqueue : s.queue = []) (hlive : s.terminated = false) (after : List (Worker τ)) :
    ∀ (n : Nat) (before : List (Worker τ)),
      runSteps step { s with workers := before ++ List.replicate n (.ready ()) ++ after }
          ((List.range' before.length n).map fun i => .worker i none) =
        some { s with workers := before ++ List.replicate n (.waiting ()) ++ after } := by
  intro n
  induction n with
  | zero => intro before; rfl
  | succ n ih =>
    intro before
    have hone : step { s with workers := before ++ List.replicate (n + 1) (.ready ()) ++ after }
        (.worker before.length none) = some { s with
          workers := (before ++ [.waiting ()]) ++ List.replicate n (.ready ()) ++ after } := by
      simp [step, workerStep, hlive, hqueue, setWorker, List.replicate_succ]
    have hrest := ih (before ++ [.waiting ()])
    rw [List.length_append, List.length_singleton] at hrest
    rw [List.range'_succ, List.map_cons, runSteps, hone, Option.bind_some, hrest]
    simp [List.replicate_succ]

/-- The caller brings a handler and wakes the first sleeper among the workers. -/
theorem run_call (hlive : s.terminated = false) (hcalled : s.destroyer = .notCalled)
    (hon : ∀ c ∈ s.callers, isOn c = false) {before after : List (Worker τ)}
    (hworkers : s.workers = before ++ .waiting () :: after) (hroom : s.queue.length < 8) (handler : τ) :
    runSteps step s [.call handler, .caller s.callers.length none,
        .caller s.callers.length (some (.worker before.length))] =
      some { s with
        workers := before ++ .ready () :: after, callers := s.callers ++ [.out .returned]
        queue := s.queue ++ [handler], accepted := s.accepted ++ [handler] } ∧
      Along step OneByOne s [.call handler, .caller s.callers.length none,
        .caller s.callers.length (some (.worker before.length))] := by
  constructor
  · simp [runSteps, step, callerStep, notifyOne, wake, setCaller, setWorker, hlive, hcalled, hworkers,
      hroom]
  · refine Along.cons_iff.mpr ⟨fun _ _ => hon, fun t _ => Along.of_forall t ?_⟩
    intro a ha t handler' heq
    rw [heq] at ha
    simp at ha

/-- The first worker serves a handler and wakes the next sleeper. -/
theorem run_serve (hlive : s.terminated = false) {before after : List (Worker τ)}
    (hworkers : s.workers = .ready () :: before ++ .waiting () :: after) {handler : τ} {queue : List τ}
    (hqueue : s.queue = handler :: queue) :
    runSteps step s [.worker 0 (some (.worker (before.length + 1))), .worker 0 none] =
      some { s with
        workers := .ready () :: before ++ .ready () :: after, queue := queue
        started := s.started ++ [handler], finished := s.finished ++ [handler] } := by
  simp [runSteps, step, workerStep, notifyOne, wake, setWorker, hlive, hworkers, hqueue]

/-- The caller brings so many handlers, and wakes a worker for each. -/
def fill (handler : τ) : (worker caller count : Nat) → List (Action τ)
  | _, _, 0 => []
  | worker, caller, count + 1 =>
    [.call handler, .caller caller none, .caller caller (some (.worker worker))] ++
      fill handler (worker + 1) (caller + 1) count

theorem run_fill (handler : τ) (after : List (Worker τ)) : ∀ (k : Nat)
    (before : List (Worker τ)) {s : Pool τ}, s.terminated = false → s.destroyer = .notCalled →
    (∀ c ∈ s.callers, isOn c = false) →
    s.workers = before ++ (List.replicate k (.waiting ()) ++ after) → s.queue.length + k ≤ 8 →
      runSteps step s (fill handler before.length s.callers.length k) =
        some { s with
          workers := before ++ (List.replicate k (.ready ()) ++ after)
          callers := s.callers ++ List.replicate k (.out .returned)
          queue := s.queue ++ List.replicate k handler
          accepted := s.accepted ++ List.replicate k handler } ∧
        Along step OneByOne s (fill handler before.length s.callers.length k) := by
  intro k
  induction k with
  | zero =>
    intro before s _ _ _ hworkers _
    refine ⟨?_, trivial⟩
    obtain ⟨queue, terminated, workers, callers, destroyer, accepted, started, finished⟩ := s
    cases hworkers
    simp [fill, runSteps]
  | succ k ih =>
    intro before s hlive hcalled hon hworkers hroom
    rw [List.replicate_succ, List.cons_append] at hworkers
    obtain ⟨hone, halong⟩ := run_call hlive hcalled hon hworkers (by omega) handler
    have hon' : ∀ c ∈ s.callers ++ [.out .returned], isOn c = false := by
      intro c hc
      rcases List.mem_append.mp hc with hc | hc
      · exact hon c hc
      · rw [List.mem_singleton.mp hc]
        rfl
    obtain ⟨hrest, halong'⟩ := @ih (before ++ [.ready ()])
      { s with
        workers := before ++ .ready () :: (List.replicate k (.waiting ()) ++ after)
        callers := s.callers ++ [.out .returned]
        queue := s.queue ++ [handler], accepted := s.accepted ++ [handler] }
      hlive hcalled hon' (by simp)
      (by rw [List.length_append, List.length_singleton]; omega)
    rw [List.length_append, List.length_append, List.length_singleton, List.length_singleton] at hrest halong'
    constructor
    · rw [fill, runSteps_append, hone, Option.bind_some, hrest]
      simp [List.replicate_succ]
    · rw [fill]
      refine halong.append fun t ht => ?_
      cases hone.symm.trans ht
      exact halong'

/-- The first worker serves so many handlers, and wakes a worker with each. -/
def drain : (worker count : Nat) → List (Action τ)
  | _, 0 => []
  | worker, count + 1 =>
    [.worker 0 (some (.worker worker)), .worker 0 none] ++ drain (worker + 1) count

theorem run_drain (handler : τ) (after : List (Worker τ)) : ∀ (k : Nat)
    (before : List (Worker τ)) {s : Pool τ}, s.terminated = false →
    s.workers = .ready () :: before ++ (List.replicate k (.waiting ()) ++ after) →
    s.queue = List.replicate k handler →
      runSteps step s (drain (before.length + 1) k) =
        some { s with
          workers := .ready () :: before ++ (List.replicate k (.ready ()) ++ after), queue := []
          started := s.started ++ List.replicate k handler
          finished := s.finished ++ List.replicate k handler } := by
  intro k
  induction k with
  | zero =>
    intro before s _ hworkers hqueue
    obtain ⟨queue, terminated, workers, callers, destroyer, accepted, started, finished⟩ := s
    cases hworkers
    cases hqueue
    simp [drain, runSteps]
  | succ k ih =>
    intro before s hlive hworkers hqueue
    have hworkers' : s.workers =
        .ready () :: before ++ .waiting () :: (List.replicate k (.waiting ()) ++ after) := hworkers
    have hone := run_serve hlive hworkers' hqueue
    have hrest := @ih (before ++ [.ready ()])
      { s with
        workers := .ready () :: before ++ .ready () :: (List.replicate k (.waiting ()) ++ after)
        queue := List.replicate k handler
        started := s.started ++ [handler], finished := s.finished ++ [handler] }
      hlive (by simp) rfl
    rw [List.length_append, List.length_singleton] at hrest
    rw [drain, runSteps_append, hone, Option.bind_some, hrest]
    simp [List.replicate_succ]

/-- Nothing of this is a call of `Enqueue`. -/
theorem oneByOne_of_no_call {as : List (Action τ)} (h : ∀ handler, .call handler ∉ as) (s : Pool τ) :
    Along step OneByOne s as :=
  Along.of_forall s fun _ ha _ handler heq => absurd (heq ▸ ha) (h handler)

theorem call_not_mem_drain (handler : τ) : ∀ k worker, .call handler ∉ drain worker k := by
  intro k
  induction k with
  | zero => intro worker; exact List.not_mem_nil
  | succ k ih =>
    intro worker hmem
    rcases List.mem_append.mp hmem with hmem | hmem
    · simp at hmem
    · exact ih _ hmem

/-- All the workers sleep, and the caller does. -/
theorem hung_atRest (hcalled : s.destroyer = .notCalled)
    (hworkers : ∀ w ∈ s.workers, w = .waiting ())
    (hcallers : ∀ c ∈ s.callers, isOn c = true → ∃ handler, c = .waiting handler) : s.AtRest := by
  refine ⟨fun i woken => ?_, fun i woken => ?_, by rw [destroyerStep, hcalled]⟩
  · rw [workerStep]
    cases hi : s.workers[i]? with
    | none => rfl
    | some w => rw [hworkers w (List.mem_of_getElem? hi)]
  · rw [callerStep]
    cases hi : s.callers[i]? with
    | none => rfl
    | some c =>
      have hc := hcallers c (List.mem_of_getElem? hi)
      rcases c with handler | handler | _ | _ | _
      · obtain ⟨handler', heq⟩ := hc rfl
        cases heq
      · rfl
      · obtain ⟨handler', heq⟩ := hc rfl
        cases heq
      · rfl
      · rfl

/-- What 16 workers and more come to, with `m` to spare. -/
def hung (m : Nat) (handler : τ) : Pool τ where
  queue := []
  terminated := false
  workers := List.replicate 16 (.waiting ()) ++ List.replicate m (.waiting ())
  callers := List.replicate 8 (.out .returned) ++ [.waiting handler]
  destroyer := .notCalled
  accepted := List.replicate 8 handler
  started := List.replicate 8 handler
  finished := List.replicate 8 handler

/-- All workers fall asleep; the caller fills the queue and wakes eight; it falls asleep; one worker empties
the queue and wakes the other eight; all fall asleep. -/
def hang (m : Nat) (handler : τ) : List (Action τ) :=
  (List.range' 0 (16 + m)).map (fun i => .worker i none) ++
    (fill handler 0 0 8 ++ [.call handler, .caller 8 none]) ++
    (drain 8 8 ++ (List.range' 0 16).map fun i => .worker i none)

/-- Before there is anything to do. -/
def dozing (m : Nat) : Pool τ :=
  { (new 0 : Pool τ) with workers := List.replicate (16 + m) (.waiting ()) }

/-- After the caller has filled the queue and gone to sleep. -/
def filled (m : Nat) (handler : τ) : Pool τ where
  queue := List.replicate 8 handler
  terminated := false
  workers := List.replicate 8 (.ready ()) ++
    (List.replicate 8 (.waiting ()) ++ List.replicate m (.waiting ()))
  callers := List.replicate 8 (.out .returned) ++ [.waiting handler]
  destroyer := .notCalled
  accepted := List.replicate 8 handler
  started := []
  finished := []

theorem run_filled (m : Nat) (handler : τ) :
    runSteps step (dozing m) (fill handler 0 0 8 ++ [.call handler, .caller 8 none]) =
        some (filled m handler) ∧
      Along step OneByOne (dozing m) (fill handler 0 0 8 ++ [.call handler, .caller 8 none]) := by
  obtain ⟨hfill, halong⟩ := run_fill handler
    (List.replicate 8 (.waiting ()) ++ List.replicate m (.waiting ())) 8 [] (s := dozing m)
    rfl rfl nofun (by rw [dozing, List.replicate_add]; rfl) (Nat.le_refl _)
  constructor
  · rw [runSteps_append]
    exact (congrArg (Option.bind · _) hfill).trans rfl
  · refine Along.append halong fun t ht => ?_
    cases hfill.symm.trans ht
    refine Along.cons_iff.mpr ⟨fun _ _ c hc => ?_, fun t _ => Along.of_forall t ?_⟩
    · rw [List.eq_of_mem_replicate hc]
      rfl
    · intro a ha t handler' heq
      rw [heq] at ha
      simp at ha

/-- Sixteen workers and one caller, and all of them asleep. -/
theorem run_hang (m : Nat) (handler : τ) :
    runSteps step (new (16 + m)) (hang m handler) = some (hung m handler) ∧
      Along step OneByOne (new (16 + m)) (hang m handler) := by
  have hsleep : runSteps step (new (16 + m))
      ((List.range' 0 (16 + m)).map fun i => .worker i none) = some (dozing m : Pool τ) := by
    have hrun := run_sleep (s := (new 0 : Pool τ)) rfl rfl [] (16 + m) []
    rw [List.append_nil, List.append_nil, List.nil_append, List.nil_append, List.length_nil] at hrun
    exact hrun
  obtain ⟨hfill, halong⟩ := run_filled m handler
  have hdrain : runSteps step (filled m handler) (drain 8 8) = some { hung m handler with
      workers := List.replicate 16 (.ready ()) ++ List.replicate m (.waiting ()) } := by
    have hrun := run_drain handler (List.replicate m (.waiting ())) 8 (List.replicate 7 (.ready ()))
      (s := filled m handler) rfl rfl rfl
    rw [List.length_replicate] at hrun
    exact hrun
  have hback := run_sleep (s := hung m handler) rfl rfl (List.replicate m (.waiting ())) 16 []
  rw [List.nil_append, List.nil_append, List.length_nil] at hback
  have hdown : runSteps step (filled m handler)
      (drain 8 8 ++ (List.range' 0 16).map fun i => .worker i none) = some (hung m handler) := by
    rw [runSteps_append, hdrain, Option.bind_some, hback]
    rfl
  have hquiet : ∀ n, ∀ handler' : τ,
      .call handler' ∉ (List.range' 0 n).map fun i => (.worker i none : Action τ) := by
    intro n handler' hmem
    obtain ⟨i, -, heq⟩ := List.mem_map.mp hmem
    cases heq
  constructor
  · rw [hang, runSteps_append, runSteps_append, hsleep, Option.bind_some, hfill, Option.bind_some, hdown]
  · refine Along.append (Along.append (oneByOne_of_no_call (hquiet _) _) fun t ht => ?_) fun t ht => ?_
    · cases hsleep.symm.trans ht
      exact halong
    · refine oneByOne_of_no_call (fun handler' hmem => ?_) t
      rcases List.mem_append.mp hmem with hmem | hmem
      · exact call_not_mem_drain handler' _ _ hmem
      · exact hquiet _ handler' hmem

/-- **With one caller at a time a pool that has workers always comes to rest with everything settled if
and only if it has fewer than 16 of them.** What is settled depends on whether the pool is terminated: if
it is not, every handler has been run; if it is, all threads and `~Pool` have returned, and what was in the
queue is lost (`handlers_kept`).

For fewer than 16 the invariant is `Steady`: while the caller sleeps the queue is not empty (`Patient`), so
there is still a worker that will take from it and call `notify_one`. With 16 the run `hang` puts them all
to sleep. -/
theorem never_hangs_iff {size : Nat} (hpos : 0 < size) (handler : τ) :
    (∀ (as : List (Action τ)) (s : Pool τ), Along step OneByOne (new size) as →
      runSteps step (new size) as = some s → s.Settles) ↔ size < 16 := by
  constructor
  · intro h
    refine Nat.not_le.mp fun hsize => ?_
    obtain ⟨m, rfl⟩ := Nat.exists_eq_add_of_le hsize
    obtain ⟨hrun, hone⟩ := run_hang m handler
    have hrest : (hung m handler).AtRest := by
      refine hung_atRest rfl (fun w hw => ?_) fun c hc hon => ?_
      · rcases List.mem_append.mp hw with hw | hw <;> exact List.eq_of_mem_replicate hw
      · rcases List.mem_append.mp hc with hc | hc
        · rw [List.eq_of_mem_replicate hc] at hon
          cases hon
        · exact ⟨handler, List.mem_singleton.mp hc⟩
    have hsettled := (h _ _ hone hrun [] _ nofun rfl).2 hrest
    rcases hsettled.calls (.waiting handler)
      (List.mem_append_right _ (List.mem_singleton_self _)) with heq | heq <;> cases heq
  · intro hsize as s hone hrun
    exact settles_of_one hpos hsize hone hrun

/-- The pool of `main` has four. -/
theorem never_hangs_four : 4 < 16 ∧ ∀ (as : List (Action Nat)) (s : Pool Nat),
    Along step OneByOne (new 4) as → runSteps step (new 4) as = some s → s.Settles :=
  ⟨by decide, (never_hangs_iff (by decide) 0).mpr (by decide)⟩

end

end Pool

end CxxLab.AsioLab
