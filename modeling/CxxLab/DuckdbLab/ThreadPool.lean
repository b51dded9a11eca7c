import CxxLab.Lib.Monitor
import CxxLab.Lib.Run

/-!
# `duckdb_lab/ThreadPool.h`

Workers and callers of `enqueue` share one lock and one condition variable. Everybody who changes the
queue, or stops the pool, notifies everybody else, but only after giving the lock back, so there is a
time at which a thread sleeps although it could go on. What there is at such a time is somebody who is
about to notify (`Wakes`).

The other invariant counts the tasks (`Counted`). From the two it follows that the pool does what it is
for: tasks are started in the order in which they were accepted, none is lost, none runs twice, and all of
them have been run when the destructor returns (`tasks_kept`); left alone it comes to rest after so many
steps, with every call returned and every accepted task run (`comes_to_rest`).

A step is what a thread does under the lock, or one of the things it does without. A task is run in one
step and does not itself use the pool. A thread may be woken for no reason.
-/

set_option autoImplicit false

namespace CxxLab.DuckdbLab

open CxxLab.Lib Place

variable {τ : Type}

/-- A worker that does not wait for the condition. -/
inductive WorkerAt (τ : Type) where
  /-- It has a task and is about to `notify_all`. -/
  | notify (task : τ)
  | run (task : τ)
  | returned
  deriving DecidableEq

/-- A call of `enqueue` that does not wait for the condition. -/
inductive CallerAt where
  | notify
  | returned
  /-- By the exception. -/
  | thrown
  deriving DecidableEq

/-- The destructor. -/
inductive Destroyer where
  | notCalled
  | notify
  | join
  | returned
  deriving DecidableEq

abbrev Worker (τ : Type) := Place Unit (WorkerAt τ)

/-- A call of `enqueue`, with its task in hand. -/
abbrev Caller (τ : Type) := Place τ CallerAt

structure ThreadPool (τ : Type) where
  maxQueueSize : Nat
  tasks : List τ
  stop : Bool
  workers : List (Worker τ)
  callers : List (Caller τ)
  destroyer : Destroyer
  /-- What has happened to tasks so far, in order. -/
  accepted : List τ
  started : List τ
  finished : List τ

namespace ThreadPool

/-- The constructor. -/
def new (threads queueSize : Nat) : ThreadPool τ where
  maxQueueSize := queueSize
  tasks := []
  stop := false
  workers := List.replicate threads (.ready ())
  callers := []
  destroyer := .notCalled
  accepted := []
  started := []
  finished := []

/-- `condition_.notify_all()`. -/
def notifyAll (s : ThreadPool τ) : ThreadPool τ :=
  { s with workers := wakeAll s.workers, callers := wakeAll s.callers }

def setWorker (s : ThreadPool τ) (i : Nat) (w : Worker τ) : ThreadPool τ :=
  { s with workers := s.workers.set i w }

def setCaller (s : ThreadPool τ) (i : Nat) (c : Caller τ) : ThreadPool τ :=
  { s with callers := s.callers.set i c }

/-- The loop of a worker. -/
def workerStep (s : ThreadPool τ) (i : Nat) : Option (ThreadPool τ) :=
  match s.workers[i]? with
  | some (.ready _) =>
    match s.stop, s.tasks with
    | false, [] => some (s.setWorker i (.waiting ()))
    | true, [] => some (s.setWorker i (.out .returned))
    | _, task :: tasks =>
      some { s.setWorker i (.out (.notify task)) with
        tasks := tasks, started := s.started ++ [task] }
  | some (.out (.notify task)) => some (s.notifyAll.setWorker i (.out (.run task)))
  | some (.out (.run task)) =>
    some { s.setWorker i (.ready ()) with finished := s.finished ++ [task] }
  | _ => none

/-- `enqueue`. -/
def callerStep (s : ThreadPool τ) (i : Nat) : Option (ThreadPool τ) :=
  match s.callers[i]? with
  | some (.ready task) =>
    if s.tasks.length < s.maxQueueSize then
      if s.stop then some (s.setCaller i (.out .thrown))
      else
        some { s.setCaller i (.out .notify) with
          tasks := s.tasks ++ [task], accepted := s.accepted ++ [task] }
    else some (s.setCaller i (.waiting task))
  | some (.out .notify) => some (s.notifyAll.setCaller i (.out .returned))
  | _ => none

/-- `~ThreadPool`, once it has set `stop`. -/
def destroyerStep (s : ThreadPool τ) : Option (ThreadPool τ) :=
  match s.destroyer with
  | .notify => some { s.notifyAll with destroyer := .join }
  | .join =>
    if ∀ w ∈ s.workers, w matches .out .returned then some { s with destroyer := .returned }
    else none
  | _ => none

inductive Action (τ : Type) where
  | call (task : τ)
  | destroy
  | worker (i : Nat)
  | caller (i : Nat)
  | destroyer
  | wakeWorker (i : Nat)
  | wakeCaller (i : Nat)

def step (s : ThreadPool τ) : Action τ → Option (ThreadPool τ)
  | .call task =>
    if s.destroyer = .returned then none else some { s with callers := s.callers ++ [.ready task] }
  | .destroy =>
    if s.destroyer = .notCalled then some { s with stop := true, destroyer := .notify } else none
  | .worker i => s.workerStep i
  | .caller i => s.callerStep i
  | .destroyer => s.destroyerStep
  | .wakeWorker i =>
    match s.workers[i]? with
    | some (.waiting _) => some (s.setWorker i (.ready ()))
    | _ => none
  | .wakeCaller i =>
    match s.callers[i]? with
    | some (.waiting task) => some (s.setCaller i (.ready task))
    | _ => none

/-! ## What a step does -/

inductive Moves (s : ThreadPool τ) : Action τ → ThreadPool τ → Prop where
  | call (task : τ) : s.destroyer ≠ .returned →
      Moves s (.call task) { s with callers := s.callers ++ [.ready task] }
  | destroy : s.destroyer = .notCalled →
      Moves s .destroy { s with stop := true, destroyer := .notify }
  | sleep (i : Nat) : s.workers[i]? = some (.ready ()) → s.stop = false → s.tasks = [] →
      Moves s (.worker i) (s.setWorker i (.waiting ()))
  | leave (i : Nat) : s.workers[i]? = some (.ready ()) → s.stop = true → s.tasks = [] →
      Moves s (.worker i) (s.setWorker i (.out .returned))
  | take (i : Nat) (task : τ) (tasks : List τ) : s.workers[i]? = some (.ready ()) →
      s.tasks = task :: tasks →
      Moves s (.worker i) { s.setWorker i (.out (.notify task)) with
        tasks := tasks, started := s.started ++ [task] }
  | tell (i : Nat) (task : τ) : s.workers[i]? = some (.out (.notify task)) →
      Moves s (.worker i) (s.notifyAll.setWorker i (.out (.run task)))
  | run (i : Nat) (task : τ) : s.workers[i]? = some (.out (.run task)) →
      Moves s (.worker i) { s.setWorker i (.ready ()) with finished := s.finished ++ [task] }
  | full (i : Nat) (task : τ) : s.callers[i]? = some (.ready task) →
      s.maxQueueSize ≤ s.tasks.length → Moves s (.caller i) (s.setCaller i (.waiting task))
  | refuse (i : Nat) (task : τ) : s.callers[i]? = some (.ready task) →
      s.tasks.length < s.maxQueueSize → s.stop = true →
      Moves s (.caller i) (s.setCaller i (.out .thrown))
  | accept (i : Nat) (task : τ) : s.callers[i]? = some (.ready task) →
      s.tasks.length < s.maxQueueSize → s.stop = false →
      Moves s (.caller i) { s.setCaller i (.out .notify) with
        tasks := s.tasks ++ [task], accepted := s.accepted ++ [task] }
  | called (i : Nat) : s.callers[i]? = some (.out .notify) →
      Moves s (.caller i) (s.notifyAll.setCaller i (.out .returned))
  | stopped : s.destroyer = .notify → Moves s .destroyer { s.notifyAll with destroyer := .join }
  | joined : s.destroyer = .join → (∀ w ∈ s.workers, w = .out .returned) →
      Moves s .destroyer { s with destroyer := .returned }
  | wakeWorker (i : Nat) : s.workers[i]? = some (.waiting ()) →
      Moves s (.wakeWorker i) (s.setWorker i (.ready ()))
  | wakeCaller (i : Nat) (task : τ) : s.callers[i]? = some (.waiting task) →
      Moves s (.wakeCaller i) (s.setCaller i (.ready task))

theorem moves_of_step {s s' : ThreadPool τ} {a : Action τ} (h : s.step a = some s') :
    s.Moves a s' := by
  cases a with
  | call task =>
    rw [step] at h
    split at h
    · cases h
    · cases h
      exact .call task ‹_›
  | destroy =>
    rw [step] at h
    split at h
    · cases h
      exact .destroy ‹_›
    · cases h
  | worker i =>
    rw [step, workerStep] at h
    split at h
    · next hi =>
      split at h
      · next hstop htasks =>
        cases h
        exact .sleep i hi hstop htasks
      · next hstop htasks =>
        cases h
        exact .leave i hi hstop htasks
      · next task tasks htasks =>
        cases h
        exact .take i task tasks hi htasks
    · next task hi =>
      cases h
      exact .tell i task hi
    · next task hi =>
      cases h
      exact .run i task hi
    · cases h
  | caller i =>
    rw [step, callerStep] at h
    split at h
    · next task hi =>
      split at h
      · next hroom =>
        split at h
        · next hstop =>
          cases h
          exact .refuse i task hi hroom hstop
        · next hstop =>
          cases h
          exact .accept i task hi hroom (by simpa using hstop)
      · next hfull =>
        cases h
        exact .full i task hi (Nat.not_lt.mp hfull)
    · next hi =>
      cases h
      exact .called i hi
    · cases h
  | destroyer =>
    rw [step, destroyerStep] at h
    split at h
    · next hd =>
      cases h
      exact .stopped hd
    · next hd =>
      split at h
      · next hall =>
        cases h
        refine .joined hd fun w hw => ?_
        have hreturned := hall w hw
        split at hreturned
        · rfl
        · cases hreturned
      · cases h
    · cases h
  | wakeWorker i =>
    rw [step] at h
    split at h
    · next hi =>
      cases h
      exact .wakeWorker i hi
    · cases h
  | wakeCaller i =>
    rw [step] at h
    split at h
    · next task hi =>
      cases h
      exact .wakeCaller i task hi
    · cases h

/-! ## What is always so -/

/-- The task a worker has in hand. -/
def inHand : WorkerAt τ → Option τ
  | .notify task => some task
  | .run task => some task
  | .returned => none

/-- Somebody is about to `notify_all`. -/
def Owes (s : ThreadPool τ) : Prop :=
  (∃ task, .out (.notify task) ∈ s.workers) ∨ .out .notify ∈ s.callers ∨ s.destroyer = .notify

/-- No task is lost, and none is run twice. -/
structure Counted (s : ThreadPool τ) : Prop where
  fifo : s.accepted = s.started ++ s.tasks
  once : (held inHand s.workers ++ s.finished).Perm s.started
  room : s.tasks.length ≤ s.maxQueueSize
  stopped : s.destroyer ≠ .notCalled ↔ s.stop = true
  /-- Nothing is left for a worker that has returned. -/
  left : .out .returned ∈ s.workers → s.stop = true ∧ s.tasks = []
  joined : s.destroyer = .returned → ∀ w ∈ s.workers, w = .out .returned

/-- Whoever sleeps and could go on will be woken. -/
structure Wakes (s : ThreadPool τ) : Prop where
  worker : .waiting () ∈ s.workers → s.stop = true ∨ s.tasks ≠ [] → s.Owes
  caller : ∀ task, .waiting task ∈ s.callers → s.tasks.length < s.maxQueueSize → s.Owes

/-- Nobody sleeps. -/
def Awake (s : ThreadPool τ) : Prop :=
  .waiting () ∉ s.workers ∧ ∀ task, .waiting task ∉ s.callers

section

variable {s s' : ThreadPool τ} {a : Action τ} {i : Nat}

theorem held_replicate_ready (n : Nat) : held inHand (List.replicate n (.ready () : Worker τ)) = [] := by
  rw [held, List.filterMap_eq_nil_iff]
  intro p hp
  rw [List.eq_of_mem_replicate hp]

theorem counted_new (threads queueSize : Nat) : Counted (new threads queueSize : ThreadPool τ) where
  fifo := rfl
  once := by
    show (held inHand (List.replicate threads (.ready ())) ++ []).Perm []
    rw [held_replicate_ready]
    exact List.Perm.refl _
  room := Nat.zero_le _
  stopped := by simp [new]
  left := fun hw => by simp [new] at hw
  joined := fun h => by simp [new] at h

theorem awake_new (threads queueSize : Nat) : Awake (new threads queueSize : ThreadPool τ) :=
  ⟨by simp [new], by simp [new]⟩

/-! ### Who has to be woken -/

theorem Wakes.of_awake (h : s.Awake) : s.Wakes :=
  ⟨fun hw => absurd hw h.1, fun task hc => absurd hc (h.2 task)⟩

theorem Wakes.of_owes (h : s.Owes) : s.Wakes := ⟨fun _ _ => h, fun _ _ _ => h⟩

theorem awake_notifyAll (s : ThreadPool τ) : s.notifyAll.Awake :=
  ⟨waiting_not_mem_wakeAll (), fun task => waiting_not_mem_wakeAll task⟩

theorem Awake.setWorker (h : s.Awake) {w : Worker τ} (hw : w ≠ .waiting ()) :
    (s.setWorker i w).Awake :=
  ⟨fun hmem => (List.mem_or_eq_of_mem_set hmem).elim h.1 fun heq => hw heq.symm, h.2⟩

theorem Awake.setCaller (h : s.Awake) {c : Caller τ} (hc : ∀ task, c ≠ .waiting task) :
    (s.setCaller i c).Awake :=
  ⟨h.1, fun task hmem => (List.mem_or_eq_of_mem_set hmem).elim (h.2 task) fun heq => hc task heq.symm⟩

theorem Owes.setWorker (h : s.Owes) {w w' : Worker τ} (hi : s.workers[i]? = some w)
    (hw : ∀ task, w ≠ .out (.notify task)) : (s.setWorker i w').Owes := by
  rcases h with ⟨task, hmem⟩ | h
  · exact Or.inl ⟨task, mem_set_of_ne hi hmem (hw task).symm⟩
  · exact Or.inr h

theorem Owes.setCaller (h : s.Owes) {c c' : Caller τ} (hi : s.callers[i]? = some c)
    (hc : c ≠ .out .notify) : (s.setCaller i c').Owes := by
  rcases h with h | h | h
  · exact Or.inl h
  · exact Or.inr (Or.inl (mem_set_of_ne hi h hc.symm))
  · exact Or.inr (Or.inr h)

/-- A worker that does not owe anything goes on, or to sleep when it may. -/
theorem Wakes.setWorker (h : s.Wakes) {w w' : Worker τ} (hi : s.workers[i]? = some w)
    (hw : ∀ task, w ≠ .out (.notify task))
    (hsleep : w' = .waiting () → s.stop = false ∧ s.tasks = []) : (s.setWorker i w').Wakes where
  worker := fun hmem hgo => by
    rcases List.mem_or_eq_of_mem_set hmem with hmem | heq
    · exact (h.worker hmem hgo).setWorker hi hw
    · obtain ⟨hstop, htasks⟩ := hsleep heq.symm
      rcases hgo with hgo | hgo
      · exact absurd (hstop.symm.trans hgo) nofun
      · exact absurd htasks hgo
  caller := fun task hmem hgo => (h.caller task hmem hgo).setWorker hi hw

theorem Wakes.setCaller (h : s.Wakes) {c c' : Caller τ} (hi : s.callers[i]? = some c)
    (hc : c ≠ .out .notify)
    (hsleep : ∀ task, c' = .waiting task → s.maxQueueSize ≤ s.tasks.length) :
    (s.setCaller i c').Wakes where
  worker := fun hmem hgo => (h.worker hmem hgo).setCaller hi hc
  caller := fun task hmem hgo => by
    rcases List.mem_or_eq_of_mem_set hmem with hmem | heq
    · exact (h.caller task hmem hgo).setCaller hi hc
    · exact absurd hgo (Nat.not_lt.mpr (hsleep task heq.symm))

theorem Wakes.step (h : s.Wakes) (hstep : s.Moves a s') : s'.Wakes := by
  cases hstep with
  | call task hd =>
    have howes : s.Owes → Owes { s with callers := s.callers ++ [.ready task] } := by
      rintro (howes | howes | howes)
      · exact Or.inl howes
      · exact Or.inr (Or.inl (List.mem_append_left _ howes))
      · exact Or.inr (Or.inr howes)
    refine ⟨fun hmem hgo => howes (h.worker hmem hgo), fun t hmem hgo => ?_⟩
    rcases List.mem_append.mp hmem with hmem | hmem
    · exact howes (h.caller t hmem hgo)
    · cases List.mem_singleton.mp hmem
  | destroy hd => exact .of_owes (Or.inr (Or.inr rfl))
  | sleep i hi hstop htasks => exact h.setWorker hi nofun fun _ => ⟨hstop, htasks⟩
  | leave i hi hstop htasks => exact h.setWorker hi nofun nofun
  | take i task tasks hi htasks =>
    exact .of_owes (Or.inl ⟨task, mem_set_self_of_getElem? hi⟩)
  | tell i task hi => exact .of_awake ((awake_notifyAll s).setWorker nofun)
  | run i task hi =>
    have hset : (s.setWorker i (.ready ())).Wakes := h.setWorker hi nofun nofun
    exact ⟨hset.worker, hset.caller⟩
  | full i task hi hfull => exact h.setCaller hi nofun fun _ _ => hfull
  | refuse i task hi hroom hstop => exact h.setCaller hi nofun nofun
  | accept i task hi hroom hstop =>
    exact .of_owes (Or.inr (Or.inl (mem_set_self_of_getElem? hi)))
  | called i hi => exact .of_awake ((awake_notifyAll s).setCaller nofun)
  | stopped hd => exact .of_awake (awake_notifyAll s)
  | joined hd hall =>
    have howes : s.Owes → Owes { s with destroyer := .returned } := by
      rintro (howes | howes | howes)
      · exact Or.inl howes
      · exact Or.inr (Or.inl howes)
      · exact absurd (hd.symm.trans howes) nofun
    exact ⟨fun hmem hgo => howes (h.worker hmem hgo), fun t hmem hgo => howes (h.caller t hmem hgo)⟩
  | wakeWorker i hi => exact h.setWorker hi nofun nofun
  | wakeCaller i task hi => exact h.setCaller hi nofun nofun

/-! ### What becomes of the tasks -/

theorem Counted.notifyAll (h : s.Counted) : s.notifyAll.Counted where
  fifo := h.fifo
  once := by
    show (held inHand (wakeAll s.workers) ++ s.finished).Perm s.started
    rw [held_wakeAll]
    exact h.once
  room := h.room
  stopped := h.stopped
  left := fun hmem => h.left (out_mem_wakeAll.mp hmem)
  joined := fun hd w hmem => by
    obtain ⟨p, hp, rfl⟩ := List.mem_map.mp hmem
    rw [h.joined hd p hp]
    rfl

theorem Counted.setCaller (h : s.Counted) (c : Caller τ) : (s.setCaller i c).Counted :=
  ⟨h.fifo, h.once, h.room, h.stopped, h.left, h.joined⟩

/-- A worker goes on with the task it has in hand, or without one. -/
theorem Counted.setWorker (h : s.Counted) {w w' : Worker τ} (hi : s.workers[i]? = some w)
    (hheld : held inHand [w] = held inHand [w']) (hw : w ≠ .out .returned)
    (hleft : w' = .out .returned → s.stop = true ∧ s.tasks = []) : (s.setWorker i w').Counted where
  fifo := h.fifo
  once := by
    have hperm := held_set inHand hi w'
    rw [hheld] at hperm
    exact (((List.perm_append_left_iff _).mp hperm).append_right _).trans h.once
  room := h.room
  stopped := h.stopped
  left := fun hmem => (List.mem_or_eq_of_mem_set hmem).elim h.left fun heq => hleft heq.symm
  joined := fun hd => absurd (h.joined hd w (List.mem_of_getElem? hi)) hw

theorem Counted.not_joined (h : s.Counted) {w : Worker τ} (hi : s.workers[i]? = some w)
    (hw : w ≠ .out .returned) : s.destroyer ≠ .returned :=
  fun hd => hw (h.joined hd w (List.mem_of_getElem? hi))

theorem Counted.step (h : s.Counted) (hstep : s.Moves a s') : s'.Counted := by
  cases hstep with
  | call task hd => exact ⟨h.fifo, h.once, h.room, h.stopped, h.left, h.joined⟩
  | destroy hd =>
    exact ⟨h.fifo, h.once, h.room, by simp, fun hmem => ⟨rfl, (h.left hmem).2⟩, nofun⟩
  | sleep i hi hstop htasks => exact h.setWorker hi rfl nofun nofun
  | leave i hi hstop htasks => exact h.setWorker hi rfl nofun fun _ => ⟨hstop, htasks⟩
  | take i task tasks hi htasks =>
    have hroom := h.room
    have hperm := held_set inHand hi (.out (.notify task))
    refine ⟨?_, ?_, ?_, h.stopped, fun hmem => ?_, fun hd => absurd hd (h.not_joined hi nofun)⟩
    · show s.accepted = s.started ++ [task] ++ tasks
      rw [h.fifo, htasks, List.append_cons]
    · calc (held inHand (s.workers.set i (.out (.notify task))) ++ s.finished).Perm
            (task :: held inHand s.workers ++ s.finished) := hperm.append_right _
        _ |>.Perm (s.started ++ [task]) :=
          (h.once.cons task).trans (List.perm_append_singleton task s.started).symm
    · rw [htasks] at hroom
      exact Nat.le_of_succ_le hroom
    · rcases List.mem_or_eq_of_mem_set hmem with hmem | heq
      · exact absurd (h.left hmem).2 (by rw [htasks]; exact List.cons_ne_nil _ _)
      · cases heq
  | tell i task hi =>
    have hi' : s.notifyAll.workers[i]? = some (.out (.notify task)) := by
      show (wakeAll s.workers)[i]? = _
      rw [getElem?_wakeAll, hi]
      rfl
    exact h.notifyAll.setWorker hi' rfl nofun nofun
  | run i task hi =>
    have hperm := held_set inHand hi (.ready ())
    refine ⟨h.fifo, ?_, h.room, h.stopped, fun hmem => ?_, fun hd => absurd hd (h.not_joined hi nofun)⟩
    · show (held inHand (s.workers.set i (.ready ())) ++ (s.finished ++ [task])).Perm s.started
      rw [← List.append_assoc]
      exact (List.perm_append_singleton task _).trans ((hperm.append_right _).trans h.once)
    · rcases List.mem_or_eq_of_mem_set hmem with hmem | heq
      · exact h.left hmem
      · cases heq
  | full i task hi hfull => exact h.setCaller _
  | refuse i task hi hroom hstop => exact h.setCaller _
  | accept i task hi hroom hstop =>
    refine ⟨?_, h.once, ?_, h.stopped, fun hmem => ?_, h.joined⟩
    · show s.accepted ++ [task] = s.started ++ (s.tasks ++ [task])
      rw [h.fifo, List.append_assoc]
    · rw [List.length_append]
      exact hroom
    · exact absurd (hstop.symm.trans (h.left hmem).1) nofun
  | called i hi => exact h.notifyAll.setCaller _
  | stopped hd =>
    have hnotified := h.notifyAll
    refine ⟨hnotified.fifo, hnotified.once, hnotified.room, ?_, hnotified.left, nofun⟩
    have hstop := h.stopped.mp (by rw [hd]; nofun)
    exact ⟨fun _ => hstop, fun _ => nofun⟩
  | joined hd hall =>
    have hstop := h.stopped.mp (by rw [hd]; nofun)
    exact ⟨h.fifo, h.once, h.room, ⟨fun _ => hstop, fun _ => nofun⟩, h.left, fun _ => hall⟩
  | wakeWorker i hi => exact h.setWorker hi rfl nofun nofun
  | wakeCaller i task hi => exact h.setCaller _

theorem maxQueueSize_of_moves (h : s.Moves a s') : s'.maxQueueSize = s.maxQueueSize := by
  cases h <;> rfl

theorem length_workers_of_moves (h : s.Moves a s') : s'.workers.length = s.workers.length := by
  cases h with
  | tell i task hi => simp [ThreadPool.setWorker, notifyAll]
  | called i hi => exact length_wakeAll
  | stopped hd => exact length_wakeAll
  | _ => first | rfl | exact List.length_set ..

/-! ## Coming to rest -/

/-- What only happens because somebody outside wants it. -/
def Action.isFresh : Action τ → Bool
  | .call _ => true
  | .destroy => true
  | _ => false

/-- What happens for no reason. -/
def Action.isWake : Action τ → Bool
  | .wakeWorker _ => true
  | .wakeCaller _ => true
  | _ => false

/-- How many may be woken. -/
def crew (s : ThreadPool τ) : Nat := s.workers.length + s.callers.length

def workerCost (n : Nat) : WorkerAt τ → Nat
  | .notify _ => n + 3
  | .run _ => 2
  | .returned => 0

def callerCost (n : Nat) : CallerAt → Nat
  | .notify => n + 1
  | _ => 0

def destroyerCost (n : Nat) : Destroyer → Nat
  | .notify => n + 2
  | .join => 1
  | _ => 0

/-- What it costs with `n` threads to come to rest: a notification as much as there are threads to
wake, a task in the queue as much as a worker with it, and a call as much as the task it brings. -/
def dueAt (n : Nat) (s : ThreadPool τ) : Nat :=
  costs 0 (workerCost n) s.workers + costs (2 * n + 5) (callerCost n) s.callers +
    (n + 3) * s.tasks.length + destroyerCost n s.destroyer

/-- More than the steps that are left. -/
def due (s : ThreadPool τ) : Nat := s.dueAt s.crew

theorem crew_of_moves (h : s.Moves a s') (hfresh : a.isFresh = false) : s'.crew = s.crew := by
  cases h with
  | call task hd => cases hfresh
  | destroy hd => cases hfresh
  | tell i task hi => simp [crew, ThreadPool.setWorker, notifyAll]
  | called i hi => simp [crew, ThreadPool.setCaller, notifyAll]
  | stopped hd => simp [crew, notifyAll]
  | _ => simp [crew, ThreadPool.setWorker, ThreadPool.setCaller]

theorem dueAt_setWorker (n : Nat) {w : Worker τ} (hi : s.workers[i]? = some w) (w' : Worker τ) :
    cost 0 (workerCost n) w + (s.setWorker i w').dueAt n = cost 0 (workerCost n) w' + s.dueAt n := by
  have hset := costs_set 0 (workerCost n) hi w'
  simp only [dueAt, ThreadPool.setWorker]
  omega

theorem dueAt_setCaller (n : Nat) {c : Caller τ} (hi : s.callers[i]? = some c) (c' : Caller τ) :
    cost (2 * n + 5) (callerCost n) c + (s.setCaller i c').dueAt n =
      cost (2 * n + 5) (callerCost n) c' + s.dueAt n := by
  have hset := costs_set (2 * n + 5) (callerCost n) hi c'
  simp only [dueAt, ThreadPool.setCaller]
  omega

theorem dueAt_notifyAll (s : ThreadPool τ) : s.notifyAll.dueAt s.crew ≤ s.dueAt s.crew + s.crew := by
  have hworkers := costs_wakeAll_le 0 (workerCost s.crew) s.workers
  have hcallers := costs_wakeAll_le (2 * s.crew + 5) (callerCost s.crew) s.callers
  have hcrew : s.workers.length + s.callers.length = s.crew := rfl
  simp only [dueAt, notifyAll]
  omega

/-- **A step is paid for**, if it is not wanted from outside. To wake somebody for no reason takes one
step and lets him take one more. -/
theorem due_of_moves (h : s.Moves a s') (hfresh : a.isFresh = false) :
    s'.due + 1 ≤ s.due + if a.isWake then 2 else 0 := by
  have hnotify := s.dueAt_notifyAll
  rw [due, due, crew_of_moves h hfresh]
  generalize s.crew = n at hnotify
  cases h with
  | call task hd => cases hfresh
  | destroy hd => cases hfresh
  | sleep i hi hstop htasks =>
    have hset := dueAt_setWorker n hi (.waiting ())
    simp only [cost, Action.isWake, Bool.false_eq_true, if_false] at hset ⊢
    omega
  | leave i hi hstop htasks =>
    have hset := dueAt_setWorker n hi (.out .returned)
    simp only [cost, workerCost, Action.isWake, Bool.false_eq_true, if_false] at hset ⊢
    omega
  | take i task tasks hi htasks =>
    have hset := dueAt_setWorker n hi (.out (.notify task))
    simp only [cost, workerCost, dueAt, ThreadPool.setWorker, htasks, List.length_cons, Nat.mul_succ,
      Action.isWake, Bool.false_eq_true, if_false] at hset ⊢
    omega
  | tell i task hi =>
    have hi' : s.notifyAll.workers[i]? = some (.out (.notify task)) := by
      show (wakeAll s.workers)[i]? = _
      rw [getElem?_wakeAll, hi]
      rfl
    have hset := dueAt_setWorker n hi' (.out (.run task))
    simp only [cost, workerCost, Action.isWake, Bool.false_eq_true, if_false] at hset ⊢
    omega
  | run i task hi =>
    have hset := dueAt_setWorker n hi (.ready ())
    simp only [cost, workerCost, dueAt, Action.isWake, Bool.false_eq_true, if_false] at hset ⊢
    omega
  | full i task hi hfull =>
    have hset := dueAt_setCaller n hi (.waiting task)
    simp only [cost, Action.isWake, Bool.false_eq_true, if_false] at hset ⊢
    omega
  | refuse i task hi hroom hstop =>
    have hset := dueAt_setCaller n hi (.out .thrown)
    simp only [cost, callerCost, Action.isWake, Bool.false_eq_true, if_false] at hset ⊢
    omega
  | accept i task hi hroom hstop =>
    have hset := dueAt_setCaller n hi (.out .notify)
    simp only [cost, callerCost, dueAt, ThreadPool.setCaller, List.length_append, List.length_singleton,
      Nat.mul_succ, Action.isWake, Bool.false_eq_true, if_false] at hset ⊢
    omega
  | called i hi =>
    have hi' : s.notifyAll.callers[i]? = some (.out .notify) := by
      show (wakeAll s.callers)[i]? = _
      rw [getElem?_wakeAll, hi]
      rfl
    have hset := dueAt_setCaller n hi' (.out .returned)
    simp only [cost, callerCost, Action.isWake, Bool.false_eq_true, if_false] at hset ⊢
    omega
  | stopped hd =>
    simp only [dueAt, hd, notifyAll, destroyerCost, Action.isWake, Bool.false_eq_true, if_false]
      at hnotify ⊢
    omega
  | joined hd hall =>
    simp only [dueAt, hd, destroyerCost, Action.isWake, Bool.false_eq_true, if_false]
    omega
  | wakeWorker i hi =>
    have hset := dueAt_setWorker n hi (.ready ())
    simp only [cost, Action.isWake, if_true] at hset ⊢
    omega
  | wakeCaller i task hi =>
    have hset := dueAt_setCaller n hi (.ready task)
    simp only [cost, Action.isWake, if_true] at hset ⊢
    omega

/-! ## At rest -/

/-- Nobody can do anything unless he is wanted from outside, or woken for no reason. -/
def AtRest (s : ThreadPool τ) : Prop :=
  (∀ i, s.workerStep i = none) ∧ (∀ i, s.callerStep i = none) ∧ s.destroyerStep = none

/-- Every call has come back, and every task accepted has been run; if the pool has been stopped, the
workers and the destructor have returned. -/
structure Settled (s : ThreadPool τ) : Prop where
  calls : ∀ c ∈ s.callers, c = .out .returned ∨ c = .out .thrown
  ran : s.finished.Perm s.accepted
  gone : s.stop = true → (∀ w ∈ s.workers, w = .out .returned) ∧ s.destroyer = .returned

/-- Only sleepers and those who have returned have nothing to do. -/
theorem AtRest.worker (h : s.AtRest) {w : Worker τ} (hw : w ∈ s.workers) :
    w = .waiting () ∨ w = .out .returned := by
  obtain ⟨i, hi⟩ := List.mem_iff_getElem?.mp hw
  have hnone := h.1 i
  rw [workerStep, hi] at hnone
  rcases w with _ | _ | task | task | _
  · dsimp only at hnone
    split at hnone <;> cases hnone
  · exact Or.inl rfl
  · cases hnone
  · cases hnone
  · exact Or.inr rfl

theorem AtRest.caller (h : s.AtRest) {c : Caller τ} (hc : c ∈ s.callers) :
    (∃ task, c = .waiting task) ∨ c = .out .returned ∨ c = .out .thrown := by
  obtain ⟨i, hi⟩ := List.mem_iff_getElem?.mp hc
  have hnone := h.2.1 i
  rw [callerStep, hi] at hnone
  rcases c with task | task | _ | _ | _
  · dsimp only at hnone
    split at hnone
    · split at hnone <;> cases hnone
    · cases hnone
  · exact Or.inl ⟨task, rfl⟩
  · cases hnone
  · exact Or.inr (Or.inl rfl)
  · exact Or.inr (Or.inr rfl)

theorem AtRest.not_owes (h : s.AtRest) : ¬ s.Owes := by
  rintro (⟨task, hmem⟩ | hmem | hd)
  · rcases h.worker hmem with heq | heq <;> cases heq
  · rcases h.caller hmem with ⟨task, heq⟩ | heq | heq <;> cases heq
  · have hnone := h.2.2
    rw [destroyerStep, hd] at hnone
    cases hnone

theorem AtRest.held_eq (h : s.AtRest) : held inHand s.workers = [] := by
  rw [held, List.filterMap_eq_nil_iff]
  intro w hw
  rcases h.worker hw with rfl | rfl <;> rfl

/-- The queue is empty: somebody is left to see to it, or has seen to it before he returned. -/
theorem AtRest.tasks_eq (h : s.AtRest) (hcounted : s.Counted) (hwakes : s.Wakes)
    (hworkers : s.workers ≠ []) : s.tasks = [] := by
  obtain ⟨w, hw⟩ := List.exists_mem_of_ne_nil _ hworkers
  rcases h.worker hw with rfl | rfl
  · exact Decidable.not_not.mp fun htasks => h.not_owes (hwakes.worker hw (Or.inr htasks))
  · exact (hcounted.left hw).2

theorem AtRest.settled (h : s.AtRest) (hcounted : s.Counted) (hwakes : s.Wakes)
    (hworkers : s.workers ≠ []) (hroom : 0 < s.maxQueueSize) : s.Settled where
  calls := fun c hc => by
    rcases h.caller hc with ⟨task, rfl⟩ | hc
    · refine absurd (hwakes.caller task hc ?_) h.not_owes
      rw [h.tasks_eq hcounted hwakes hworkers]
      exact hroom
    · exact hc
  ran := by
    have honce := hcounted.once
    rw [h.held_eq, List.nil_append] at honce
    rw [hcounted.fifo, h.tasks_eq hcounted hwakes hworkers, List.append_nil]
    exact honce
  gone := fun hstop => by
    have hall : ∀ w ∈ s.workers, w = .out .returned := fun w hw => by
      rcases h.worker hw with rfl | rfl
      · exact absurd (hwakes.worker hw (Or.inl hstop)) h.not_owes
      · rfl
    refine ⟨hall, ?_⟩
    have hcalled := hcounted.stopped.mpr hstop
    have hnone := h.2.2
    rw [destroyerStep] at hnone
    split at hnone
    · cases hnone
    · rw [if_pos fun w hw => by rw [hall w hw]] at hnone
      cases hnone
    · next hnotify hjoin =>
      cases hd : s.destroyer with
      | notCalled => exact absurd hd hcalled
      | notify => exact absurd hd hnotify
      | join => exact absurd hd hjoin
      | returned => rfl

/-! ## Runs -/

theorem reachable_inv {threads queueSize : Nat} {as : List (Action τ)}
    (hrun : runSteps step (new threads queueSize) as = some s) :
    s.Counted ∧ s.Wakes ∧ s.workers.length = threads ∧ s.maxQueueSize = queueSize := by
  refine runSteps_inv (I := fun s => s.Counted ∧ s.Wakes ∧ s.workers.length = threads ∧
    s.maxQueueSize = queueSize) (fun s a s' h hone => ?_)
    ⟨counted_new _ _, .of_awake (awake_new _ _), List.length_replicate, rfl⟩ hrun
  have hmoves := moves_of_step hone
  refine ⟨h.1.step hmoves, h.2.1.step hmoves, ?_, (maxQueueSize_of_moves hmoves).trans h.2.2.2⟩
  exact (length_workers_of_moves hmoves).trans h.2.2.1

/-- **What becomes of tasks**, whatever has happened so far: they are started in the order in which they
were accepted, those that were started are in hand or finished, each once, and when the destructor has
returned they are all finished. -/
theorem tasks_kept {threads queueSize : Nat} (hthreads : 0 < threads) {as : List (Action τ)}
    {s : ThreadPool τ} (hrun : runSteps step (new threads queueSize) as = some s) :
    s.accepted = s.started ++ s.tasks ∧ s.tasks.length ≤ queueSize ∧
      (held inHand s.workers ++ s.finished).Perm s.started ∧
      (s.destroyer = .returned → s.finished.Perm s.accepted) := by
  obtain ⟨hcounted, -, hlength, hsize⟩ := reachable_inv hrun
  refine ⟨hcounted.fifo, hsize ▸ hcounted.room, hcounted.once, fun hd => ?_⟩
  have hall := hcounted.joined hd
  obtain ⟨w, hw⟩ := List.exists_mem_of_length_pos (hlength ▸ hthreads)
  have hheld : held inHand s.workers = [] := by
    rw [held, List.filterMap_eq_nil_iff]
    intro w hw
    rw [hall w hw]
    rfl
  have honce := hcounted.once
  rw [hheld, List.nil_append] at honce
  rw [hcounted.fifo, (hcounted.left (hall w hw ▸ hw)).2, List.append_nil]
  exact honce

/-- Two workers, of which one falls asleep before there is anything to do, and two calls for a queue of one:
the second finds it full and sleeps until the other worker has taken the first task. -/
def twoTasks : List (Action Nat) :=
  [.worker 0, .call 7, .call 8, .caller 0, .caller 1, .caller 0, .worker 1, .caller 1]

/-- The second task is finished before the first, and the pool is stopped between the two. -/
def twoTasksAndEnd : List (Action Nat) :=
  twoTasks ++ [.worker 0, .worker 0, .worker 0, .caller 1, .destroy, .worker 1, .worker 1, .worker 0,
    .destroyer, .worker 1, .destroyer]

theorem tasks_kept_two :
    ∃ s, runSteps step (new 2 1) twoTasksAndEnd = some s ∧ s.finished = [8, 7] ∧
      s.finished.Perm [7, 8] :=
  ⟨_, rfl, rfl, (@tasks_kept Nat 2 1 (by decide) twoTasksAndEnd _ rfl).2.2.2 rfl⟩

/-- **The pool comes to rest**, from wherever it has got to, if it is not given more to do: after no more
steps than are due and two for everybody who is woken for no reason. At rest every call has come back
and every task has been run, and if the pool has been stopped the destructor has returned. -/
theorem comes_to_rest {threads queueSize : Nat} (hthreads : 0 < threads) (hsize : 0 < queueSize)
    {as bs : List (Action τ)} {s s' : ThreadPool τ}
    (hrun : runSteps step (new threads queueSize) as = some s)
    (hfresh : ∀ b ∈ bs, b.isFresh = false) (hlater : runSteps step s bs = some s') :
    bs.length ≤ s.due + 2 * bs.countP Action.isWake ∧ (s'.AtRest → s'.Settled) := by
  have hpaid := length_run_le (g := Action.isWake) (fun _ _ _ hone => due_of_moves (moves_of_step hone)) hfresh hlater
  have hboth : runSteps step (new threads queueSize) (as ++ bs) = some s' := by
    rw [runSteps_append, hrun]
    exact hlater
  obtain ⟨hcounted, hwakes, hlength, hmax⟩ := reachable_inv hboth
  refine ⟨by omega, fun h => h.settled hcounted hwakes ?_ (hmax ▸ hsize)⟩
  exact List.ne_nil_of_length_pos (hlength ▸ hthreads)

/-- The two workers run the two tasks side by side and go to sleep again. -/
theorem comes_to_rest_two : ∃ s s' : ThreadPool Nat, runSteps step (new 2 1) twoTasks = some s ∧
    runSteps step s [.caller 1, .worker 0, .worker 1, .worker 0, .worker 0, .worker 0, .worker 1, .worker 1]
      = some s' ∧ 8 ≤ s.due ∧ s'.Settled := by
  obtain ⟨hdue, hrest⟩ := @comes_to_rest Nat 2 1 (by decide) (by decide) twoTasks
    [.caller 1, .worker 0, .worker 1, .worker 0, .worker 0, .worker 0, .worker 1, .worker 1]
    _ _ rfl (by decide) rfl
  refine ⟨_, _, rfl, rfl, hdue, hrest ⟨fun i => ?_, fun i => ?_, rfl⟩⟩
  · rcases i with _ | _ | i <;> rfl
  · rcases i with _ | _ | i <;> rfl

end

end ThreadPool

end CxxLab.DuckdbLab
