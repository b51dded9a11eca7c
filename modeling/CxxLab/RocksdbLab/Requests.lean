import CxxLab.RocksdbLab.Workers

/-!
# `rocksdb_lab/executor.cpp` — requests that are handed in

A `RequestExector` has up to `parallel_` executors, each a thread with a queue. `HandleRequest` puts
a request in the queue of the next executor and calls its `WaitToFinish`. The thread takes requests off its
queue, executes them and calls their `Done`.

`step` is what one of the callers or one of the threads does between two points where another can
go on, and a run is any interleaving. Both `Done` and `WaitToFinish` are more than one step:

* `Done` sets `done_`, and then notifies. It does not hold `finish_mtx_` for it.
* `WaitToFinish` looks at `done_`, and if that is not set it goes to sleep. It holds `finish_mtx_`
  in between, but this keeps nobody out.

So a caller can have looked at `done_` and not be asleep yet when it is notified. That notification is
lost, and the caller sleeps until it wakes without one, which may be never.

What holds of every run nevertheless is `Ordered`: requests are executed in the order in which they
were handed in, each at most once. That each is executed, and that its caller hears of it, is left to the next
two modules.
-/

set_option autoImplicit false

namespace CxxLab.RocksdbLab

open Std CxxLab.Lib RocksDBImpl

/-! ## Requests -/

/-- An `AddDocRequest`, with what is in its context. -/
structure AddDocRequest where
  tableName : Bytes
  docs : List Doc

/-- One access of `AddDocRequest::OnExecute`, which is `AddDocs`. `written` is the outcome of
`db_->Write`. -/
def AddDocRequest.onExecute (request : AddDocRequest) (written : Bool) (impl : RocksDBImpl) :
    Phase → Option (RocksDBImpl × Phase)
  | .adding tid [] c =>
    if written then work request.tableName request.docs impl (.adding tid [] c)
    else some (impl, .done .ioError)
  | p => work request.tableName request.docs impl p

/-- What `BaseRequest::WaitToFinish` returns, once the request is done. It does not look at
`status_`. -/
def waitToFinish : Status := .ok

/-- Where the caller of a request is. -/
inductive Caller where
  /-- It has not put the request in a queue. -/
  | absent
  /-- In `WaitToFinish`, about to look at `done_`. -/
  | test
  /-- It has found `done_` not set, and is about to go to sleep. -/
  | wait
  | asleep
  /-- `HandleRequest` has returned this. -/
  | returned (status : Status)
  deriving DecidableEq

/-- `notify_all`. Who is not asleep does not notice it. -/
def Caller.notified : Caller → Caller
  | .asleep => .test
  | caller => caller

theorem Caller.notified_eq_absent {caller : Caller} : caller.notified = .absent ↔ caller = .absent := by
  cases caller <;> simp [notified]

theorem Caller.notified_eq_returned {caller : Caller} {status : Status} :
    caller.notified = .returned status ↔ caller = .returned status := by
  cases caller <;> simp [notified]

/-! ## The executor -/

/-- `BlockingQueue::capacity_`. -/
def queueCapacity : Nat := 32

/-- Where a `WorkingThread` is: in `Take`, in `OnExecute`, or in `Done`, in front of setting `done_` or in
front of `notify_all`. In `Done`, `status_` has been set. -/
inductive Thread (ι : Type) where
  | take
  | execute (request : ι) (phase : Phase)
  | finish (request : ι)
  | notify (request : ι)

namespace RequestExector

/-- `Executor`. -/
structure Executor (ι : Type) where
  executeThread : Thread ι
  executeQueue : List ι

/-- A thread in `Take` and nothing to take. -/
def Executor.isIdle {ι : Type} : Executor ι → Bool
  | ⟨.take, []⟩ => true
  | _ => false

end RequestExector

/-- A `RequestExector` with the database and the requests, named by `ι`, and their callers. The last
two fields are no part of it: they record which requests were handed in and to which executor, and which
were executed and where. -/
structure RequestExector (ι : Type) where
  impl : RocksDBImpl
  current : Nat
  executors : Nat → Option (RequestExector.Executor ι)
  /-- `mtx_`, while a caller is in `Enqueue`: its request, and the executor it is for. -/
  holder : Option (ι × Nat)
  status : ι → Status
  isDone : ι → Bool
  callers : ι → Caller
  handed : List (ι × Nat)
  executed : List (ι × Nat)

namespace RequestExector

variable {ι : Type}

/-- Before the first request. -/
def start (impl : RocksDBImpl) : RequestExector ι :=
  ⟨impl, 0, fun _ => none, none, fun _ => .ok, fun _ => false, fun _ => .absent, [], []⟩

def put (e : RequestExector ι) (w : Nat) (x : Executor ι) : RequestExector ι :=
  { e with executors := Function.update e.executors w (some x) }

/-- A step of a thread, which has its number, or of a caller. -/
inductive Step (ι : Type) where
  | enqueue (request : ι)
  | put
  | take (w : Nat)
  | access (w : Nat) (written : Bool)
  | finish (w : Nat)
  | done (w : Nat)
  | notify (w : Nat)
  | test (request : ι)
  | sleep (request : ι)
  /-- A caller wakes up though nobody has notified it, as `std::condition_variable` may make it. -/
  | wake (request : ι)

section Steps

variable [DecidableEq ι]

/-- `Enqueue` up to `Put`. No request is handed in twice, and `Routing` is always -1. -/
def enqueue (parallel : Nat) (e : RequestExector ι) (request : ι) : Option (RequestExector ι) :=
  if e.holder = none ∧ request ∉ e.handed.map Prod.fst ∧ 0 < parallel then
    let target := e.current
    let e := match e.executors target with
      | none => e.put target ⟨.take, []⟩
      | some _ => e
    some { e with holder := some (request, target), current := (target + 1) % parallel }
  else none

/-- The caller of a request goes on to another place. -/
def call (e : RequestExector ι) (request : ι) (caller : Caller) : RequestExector ι :=
  { e with callers := Function.update e.callers request caller }

def step (requests : ι → AddDocRequest) (parallel : Nat) (e : RequestExector ι) :
    Step ι → Option (RequestExector ι)
  | .enqueue request => e.enqueue parallel request
  | .put => do
    let (request, w) ← e.holder
    let x ← e.executors w
    if x.executeQueue.length < queueCapacity then
      some { (e.put w { x with executeQueue := x.executeQueue ++ [request] }).call request .test with
        holder := none, handed := e.handed ++ [(request, w)] }
    else none
  | .take w => do
    let x ← e.executors w
    match x.executeThread, x.executeQueue with
    | .take, request :: queue => some (e.put w ⟨.execute request .waiting, queue⟩)
    | _, _ => none
  | .access w written => do
    let x ← e.executors w
    match x.executeThread with
    | .execute request phase =>
      if phase.isDone then none
      else
        let (impl, phase) ← (requests request).onExecute written e.impl phase
        some { e.put w { x with executeThread := .execute request phase } with impl := impl }
    | _ => none
  | .finish w => do
    let x ← e.executors w
    match x.executeThread with
    | .execute request (.done status) =>
      some { e.put w { x with executeThread := .finish request } with
        status := Function.update e.status request status, executed := e.executed ++ [(request, w)] }
    | _ => none
  | .done w => do
    let x ← e.executors w
    match x.executeThread with
    | .finish request =>
      some { e.put w { x with executeThread := .notify request } with
        isDone := Function.update e.isDone request true }
    | _ => none
  | .notify w => do
    let x ← e.executors w
    match x.executeThread with
    | .notify request =>
      some ((e.put w { x with executeThread := .take }).call request (e.callers request).notified)
    | _ => none
  | .test request =>
    match e.callers request with
    | .test =>
      if e.isDone request then some (e.call request (.returned waitToFinish))
      else some (e.call request .wait)
    | _ => none
  | .sleep request =>
    match e.callers request with
    | .wait => some (e.call request .asleep)
    | _ => none
  | .wake request =>
    match e.callers request with
    | .asleep => some (e.call request .test)
    | _ => none

/-! ## What a step can do -/

/-- The cases of `step`. -/
inductive Moves (requests : ι → AddDocRequest) (parallel : Nat) (e : RequestExector ι) :
    Step ι → RequestExector ι → Prop where
  | enqueueNew {r : ι} (hfree : e.holder = none) (hnew : r ∉ e.handed.map Prod.fst)
      (hparallel : 0 < parallel) (hnone : e.executors e.current = none) :
      Moves requests parallel e (.enqueue r) { e.put e.current ⟨.take, []⟩ with
        holder := some (r, e.current), current := (e.current + 1) % parallel }
  | enqueueOld {r : ι} {x : Executor ι} (hfree : e.holder = none)
      (hnew : r ∉ e.handed.map Prod.fst) (hparallel : 0 < parallel)
      (hx : e.executors e.current = some x) :
      Moves requests parallel e (.enqueue r)
        { e with holder := some (r, e.current), current := (e.current + 1) % parallel }
  | put {r : ι} {w : Nat} {x : Executor ι} (hholder : e.holder = some (r, w))
      (hx : e.executors w = some x) :
      Moves requests parallel e .put
        { (e.put w { x with executeQueue := x.executeQueue ++ [r] }).call r .test with
          holder := none, handed := e.handed ++ [(r, w)] }
  | take {r : ι} {w : Nat} {queue : List ι} (hx : e.executors w = some ⟨.take, r :: queue⟩) :
      Moves requests parallel e (.take w) (e.put w ⟨.execute r .waiting, queue⟩)
  | access {r : ι} {w : Nat} {written : Bool} {queue : List ι} {phase phase' : Phase}
      {impl : RocksDBImpl} (hx : e.executors w = some ⟨.execute r phase, queue⟩)
      (hphase : phase.isDone = false)
      (hexecute : (requests r).onExecute written e.impl phase = some (impl, phase')) :
      Moves requests parallel e (.access w written)
        { e.put w ⟨.execute r phase', queue⟩ with impl := impl }
  | finish {r : ι} {w : Nat} {queue : List ι} {status : Status}
      (hx : e.executors w = some ⟨.execute r (.done status), queue⟩) :
      Moves requests parallel e (.finish w) { e.put w ⟨.finish r, queue⟩ with
        status := Function.update e.status r status, executed := e.executed ++ [(r, w)] }
  | done {r : ι} {w : Nat} {queue : List ι} (hx : e.executors w = some ⟨.finish r, queue⟩) :
      Moves requests parallel e (.done w)
        { e.put w ⟨.notify r, queue⟩ with isDone := Function.update e.isDone r true }
  | notify {r : ι} {w : Nat} {queue : List ι} (hx : e.executors w = some ⟨.notify r, queue⟩) :
      Moves requests parallel e (.notify w)
        ((e.put w ⟨.take, queue⟩).call r (e.callers r).notified)
  | found {r : ι} (hcaller : e.callers r = .test) (hdone : e.isDone r = true) :
      Moves requests parallel e (.test r) (e.call r (.returned waitToFinish))
  | notFound {r : ι} (hcaller : e.callers r = .test) (hdone : e.isDone r = false) :
      Moves requests parallel e (.test r) (e.call r .wait)
  | sleep {r : ι} (hcaller : e.callers r = .wait) :
      Moves requests parallel e (.sleep r) (e.call r .asleep)
  | wake {r : ι} (hcaller : e.callers r = .asleep) :
      Moves requests parallel e (.wake r) (e.call r .test)

variable {requests : ι → AddDocRequest} {parallel : Nat} {e e' : RequestExector ι}

theorem step_moves {a : Step ι} (h : step requests parallel e a = some e') :
    Moves requests parallel e a e' := by
  cases a with
  | enqueue r =>
    rw [step, enqueue] at h
    split at h
    · next hcan =>
      obtain ⟨hfree, hnew, hparallel⟩ := hcan
      cases h
      split
      · next hnone => exact .enqueueNew hfree hnew hparallel hnone
      · next x hx => exact .enqueueOld hfree hnew hparallel hx
    · cases h
  | put =>
    obtain ⟨⟨r, w⟩, hholder, h⟩ := Option.bind_eq_some_iff.mp h
    obtain ⟨x, hx, h⟩ := Option.bind_eq_some_iff.mp h
    split at h
    · cases h
      exact .put hholder hx
    · cases h
  | take w =>
    obtain ⟨⟨thread, queue⟩, hx, h⟩ := Option.bind_eq_some_iff.mp h
    dsimp only at h
    split at h
    · cases h
      exact .take hx
    · cases h
  | access w written =>
    obtain ⟨⟨thread, queue⟩, hx, h⟩ := Option.bind_eq_some_iff.mp h
    dsimp only at h
    split at h
    · split at h
      · cases h
      · next hphase =>
        obtain ⟨⟨impl, phase'⟩, hexecute, h⟩ := Option.bind_eq_some_iff.mp h
        cases h
        exact .access hx (eq_false_of_ne_true hphase) hexecute
    · cases h
  | finish w =>
    obtain ⟨⟨thread, queue⟩, hx, h⟩ := Option.bind_eq_some_iff.mp h
    dsimp only at h
    split at h
    · cases h
      exact .finish hx
    · cases h
  | done w =>
    obtain ⟨⟨thread, queue⟩, hx, h⟩ := Option.bind_eq_some_iff.mp h
    dsimp only at h
    split at h
    · cases h
      exact .done hx
    · cases h
  | notify w =>
    obtain ⟨⟨thread, queue⟩, hx, h⟩ := Option.bind_eq_some_iff.mp h
    dsimp only at h
    split at h
    · cases h
      exact .notify hx
    · cases h
  | test r =>
    rw [step] at h
    split at h
    · next hcaller =>
      split at h
      · next hdone =>
        cases h
        exact .found hcaller hdone
      · next hdone =>
        cases h
        exact .notFound hcaller (eq_false_of_ne_true hdone)
    · cases h
  | sleep r =>
    rw [step] at h
    split at h
    · next hcaller =>
      cases h
      exact .sleep hcaller
    · cases h
  | wake r =>
    rw [step] at h
    split at h
    · next hcaller =>
      cases h
      exact .wake hcaller
    · cases h

end Steps

/-! ## Order -/

/-- The requests of a log at one executor. -/
def on (w : Nat) (log : List (ι × Nat)) : List ι := (log.filter fun l => l.2 = w).map Prod.fst

theorem mem_on {w : Nat} {log : List (ι × Nat)} {r : ι} : r ∈ on w log ↔ (r, w) ∈ log := by
  rw [on, List.mem_map]
  constructor
  · rintro ⟨⟨r', w'⟩, hmem, rfl⟩
    obtain ⟨hin, hw⟩ := List.mem_filter.mp hmem
    cases of_decide_eq_true hw
    exact hin
  · intro h
    exact ⟨(r, w), List.mem_filter.mpr ⟨h, decide_eq_true rfl⟩, rfl⟩

theorem on_concat (w w' : Nat) (log : List (ι × Nat)) (r : ι) :
    on w (log ++ [(r, w')]) = on w log ++ if w' = w then [r] else [] := by
  rw [on, on, List.filter_append, List.map_append]
  by_cases h : w' = w <;> simp [h]

theorem nodup_on (w : Nat) {log : List (ι × Nat)} (h : (log.map Prod.fst).Nodup) : (on w log).Nodup :=
  (List.filter_sublist.map _).nodup h

/-- The request a thread has taken and not executed. -/
def Thread.pending : Thread ι → List ι
  | .execute r _ => [r]
  | .take | .finish _ | .notify _ => []

/-- The requests an executor still has to execute, in their order. -/
def pendingAt (executors : Nat → Option (Executor ι)) (w : Nat) : List ι :=
  match executors w with
  | some x => Thread.pending x.executeThread ++ x.executeQueue
  | none => []

theorem pendingAt_eq {executors : Nat → Option (Executor ι)} {w : Nat} {x : Executor ι}
    (h : executors w = some x) :
    pendingAt executors w = Thread.pending x.executeThread ++ x.executeQueue := by
  rw [pendingAt, h]

theorem pendingAt_update (executors : Nat → Option (Executor ι)) (w w' : Nat) (x : Executor ι) :
    pendingAt (Function.update executors w (some x)) w' =
      if w' = w then Thread.pending x.executeThread ++ x.executeQueue else pendingAt executors w' := by
  rw [pendingAt, Function.update_apply]
  by_cases h : w' = w
  · rw [if_pos h, if_pos h]
  · rw [if_neg h, if_neg h, pendingAt]

variable {e e' : RequestExector ι}

/-- A thread stays where it is, whatever else an executor does. -/
theorem thread_update {executors : Nat → Option (Executor ι)} {w w' : Nat} {x y : Executor ι}
    {thread : Thread ι} (hx : executors w = some x)
    (hsame : x.executeThread = thread → y.executeThread = thread)
    (h : ∃ queue, executors w' = some ⟨thread, queue⟩) :
    ∃ queue, Function.update executors w (some y) w' = some ⟨thread, queue⟩ := by
  obtain ⟨queue, hthread⟩ := h
  rw [Function.update_apply]
  split
  · next heq =>
    subst heq
    cases hx.symm.trans hthread
    exact ⟨y.executeQueue, by rw [← hsame rfl]⟩
  · exact ⟨queue, hthread⟩

/-- **Requests are executed in order.** What was handed in to an executor it has executed, or still
has to execute, in this order, and it executes nothing twice. A request of which `done_` is set has been executed,
one that has been executed has `done_` set or is about to, and only callers whose request is done have returned. -/
structure Ordered (e : RequestExector ι) : Prop where
  nodup : (e.handed.map Prod.fst).Nodup
  inOrder : ∀ w, on w e.handed = on w e.executed ++ pendingAt e.executors w
  holder : ∀ r w, e.holder = some (r, w) → r ∉ e.handed.map Prod.fst
  once : (e.executed.map Prod.fst).Nodup
  finishing : ∀ w x r, e.executors w = some x → x.executeThread = .finish r → (r, w) ∈ e.executed
  isDone : ∀ r, e.isDone r = true → r ∈ e.executed.map Prod.fst
  undone : ∀ r w, (r, w) ∈ e.executed → e.isDone r = true ∨
    ∃ queue, e.executors w = some ⟨.finish r, queue⟩
  absent : ∀ r, e.callers r = .absent ↔ r ∉ e.handed.map Prod.fst
  returned : ∀ r s, e.callers r = .returned s → e.isDone r = true ∧ s = waitToFinish

namespace Ordered

theorem start (impl : RocksDBImpl) : Ordered (start impl : RequestExector ι) := by
  constructor <;> simp [RequestExector.start, on, pendingAt]

theorem mem_handed (h : Ordered e) {r : ι} {w : Nat} (hexecuted : (r, w) ∈ e.executed) :
    (r, w) ∈ e.handed := by
  rw [← mem_on, h.inOrder w]
  exact List.mem_append_left _ (mem_on.mpr hexecuted)

/-- A request that is executed now was handed in to its executor, and has not been executed before. -/
theorem executing (h : Ordered e) {r : ι} {w : Nat} {queue : List ι} {phase : Phase}
    (hx : e.executors w = some ⟨.execute r phase, queue⟩) :
    (r, w) ∈ e.handed ∧ r ∉ e.executed.map Prod.fst := by
  have hhere := h.inOrder w
  rw [pendingAt_eq hx] at hhere
  have hin : (r, w) ∈ e.handed := by
    rw [← mem_on, hhere]
    exact List.mem_append_right _ List.mem_cons_self
  refine ⟨hin, fun hexecuted => ?_⟩
  have hnodup := nodup_on w h.nodup
  rw [hhere, List.nodup_append] at hnodup
  obtain ⟨⟨r', w'⟩, hold, rfl⟩ := List.mem_map.mp hexecuted
  -- It was handed in once, so the executor that has done it would be this one.
  cases List.inj_on_of_nodup_map h.nodup hin (h.mem_handed hold) rfl
  exact hnodup.2.2 r' (mem_on.mpr hold) r' List.mem_cons_self rfl

theorem inOrder_update (h : Ordered e) {w : Nat} {x y : Executor ι} (hx : e.executors w = some x)
    (hsame : Thread.pending y.executeThread ++ y.executeQueue =
      Thread.pending x.executeThread ++ x.executeQueue) (w' : Nat) :
    on w' e.handed = on w' e.executed ++ pendingAt (Function.update e.executors w (some y)) w' := by
  rw [pendingAt_update, h.inOrder w']
  split
  · next heq => rw [heq, hsame, pendingAt_eq hx]
  · rfl

theorem finishing_update (h : Ordered e) {w : Nat} {y : Executor ι} {executed : List (ι × Nat)}
    (hsub : e.executed ⊆ executed) (hy : ∀ r, y.executeThread = .finish r → (r, w) ∈ executed) :
    ∀ w' x r, Function.update e.executors w (some y) w' = some x → x.executeThread = .finish r →
      (r, w') ∈ executed := by
  intro w' x r hx hthread
  rw [Function.update_apply] at hx
  split at hx
  · next heq =>
    cases hx
    rw [heq]
    exact hy r hthread
  · exact hsub (h.finishing w' x r hx hthread)

/-- An executor that is not about to mark a request as done may go on. -/
theorem undone_update (h : Ordered e) {w : Nat} {x y : Executor ι} (hx : e.executors w = some x)
    (hsame : ∀ r, x.executeThread = .finish r → y.executeThread = .finish r) :
    ∀ r w', (r, w') ∈ e.executed → e.isDone r = true ∨
      ∃ queue, Function.update e.executors w (some y) w' = some ⟨.finish r, queue⟩ := by
  intro r w' hexecuted
  exact (h.undone r w' hexecuted).imp_right (thread_update hx (hsame r))

/-- A caller that is the first at an executor. -/
theorem enqueueNew (h : Ordered e) {r : ι} {current : Nat} (hnew : r ∉ e.handed.map Prod.fst)
    (hnone : e.executors e.current = none) :
    Ordered { e.put e.current ⟨.take, []⟩ with
      holder := some (r, e.current), current := current } := by
  refine ⟨h.nodup, fun w => ?_, fun r w hr => ?_, h.once,
    h.finishing_update (List.Subset.refl _) (fun r hr => (by cases hr)), h.isDone,
    fun r w hexecuted => (h.undone r w hexecuted).imp_right ?_, h.absent, h.returned⟩
  · show on w e.handed = on w e.executed ++ pendingAt (Function.update e.executors e.current _) w
    rw [h.inOrder w, pendingAt_update]
    split
    · next heq =>
      rw [heq, pendingAt, hnone]
      rfl
    · rfl
  · cases hr
    exact hnew
  · rintro ⟨queue, hfinish⟩
    have hne : w ≠ e.current := by
      rintro rfl
      cases hnone.symm.trans hfinish
    exact ⟨queue, (Function.update_of_ne hne _ _).trans hfinish⟩

/-- A thread goes on with the request it has, or takes the next one. -/
theorem running (h : Ordered e) {w : Nat} {x y : Executor ι} {impl : RocksDBImpl}
    (hx : e.executors w = some x)
    (hsame : Thread.pending y.executeThread ++ y.executeQueue =
      Thread.pending x.executeThread ++ x.executeQueue)
    (hbefore : ∀ r, x.executeThread ≠ .finish r) (hafter : ∀ r, y.executeThread ≠ .finish r) :
    Ordered { e.put w y with impl := impl } :=
  ⟨h.nodup, h.inOrder_update hx hsame, h.holder, h.once,
    h.finishing_update (List.Subset.refl _) (fun r hr => absurd hr (hafter r)), h.isDone,
    h.undone_update hx (fun r hr => absurd hr (hbefore r)), h.absent, h.returned⟩

/-- A request has been executed. It was the first its executor had. -/
theorem finish (h : Ordered e) {r : ι} {w : Nat} {queue : List ι} {phase : Phase}
    {status : ι → Status} (hx : e.executors w = some ⟨.execute r phase, queue⟩) :
    Ordered { e.put w ⟨.finish r, queue⟩ with
      status := status, executed := e.executed ++ [(r, w)] } := by
  refine ⟨h.nodup, fun w' => ?_, h.holder, ?_, h.finishing_update (List.subset_append_left _ _) ?_,
    fun r' hr' => ?_, fun r' w' hr' => ?_, h.absent, h.returned⟩
  · show on w' e.handed =
      on w' (e.executed ++ [(r, w)]) ++ pendingAt (Function.update e.executors w _) w'
    rw [on_concat, h.inOrder w', pendingAt_update]
    by_cases heq : w' = w
    · rw [if_pos heq, if_pos heq.symm, heq, pendingAt_eq hx, List.append_assoc]
      rfl
    · rw [if_neg heq, if_neg (Ne.symm heq), List.append_nil]
  · rw [List.map_append]
    exact h.once.append (List.nodup_singleton r) (by simpa using (h.executing hx).2)
  · intro r' hr'
    cases hr'
    exact List.mem_append_right _ (List.mem_singleton_self _)
  · rw [List.map_append]
    exact List.mem_append_left _ (h.isDone r' hr')
  · rcases List.mem_append.mp hr' with hr' | hr'
    · exact h.undone_update hx (fun r hr => (by cases hr)) r' w' hr'
    · cases List.mem_singleton.mp hr'
      exact .inr ⟨queue, Function.update_self ..⟩

variable [DecidableEq ι]

/-- A request is marked as done. -/
theorem done (h : Ordered e) {r : ι} {w : Nat} {queue : List ι}
    (hx : e.executors w = some ⟨.finish r, queue⟩) :
    Ordered { e.put w ⟨.notify r, queue⟩ with isDone := Function.update e.isDone r true } := by
  have hsame := @inOrder_update _ _ h w _ ⟨.notify r, queue⟩ hx rfl
  refine ⟨h.nodup, hsame, h.holder, h.once,
    h.finishing_update (List.Subset.refl _) (fun r hr => (by cases hr)), fun r' hr' => ?_,
    fun r' w' hr' => ?_, h.absent, fun r' s' hr' => ⟨?_, (h.returned r' s' hr').2⟩⟩
  · have hr' : Function.update e.isDone r true r' = true := hr'
    rw [Function.update_apply] at hr'
    split at hr'
    · next heq => exact List.mem_map.mpr ⟨(r, w), h.finishing w _ r hx rfl, heq.symm⟩
    · exact h.isDone r' hr'
  · show Function.update e.isDone r true r' = true ∨ ∃ queue', Function.update e.executors w _ w' = _
    rw [Function.update_apply, Function.update_apply]
    split
    · exact .inl rfl
    · next hne =>
      refine (h.undone r' w' hr').imp_right ?_
      rintro ⟨queue', hfinish⟩
      -- An executor that is about to mark another request is another executor.
      have hother : w' ≠ w := by
        rintro rfl
        cases hx.symm.trans hfinish
        exact hne rfl
      exact ⟨queue', by rw [if_neg hother, hfinish]⟩
  · show Function.update e.isDone r true r' = true
    rw [Function.update_apply]
    split
    · rfl
    · exact (h.returned r' s' hr').1

/-- A caller goes on in `WaitToFinish`. -/
theorem call (h : Ordered e) {r : ι} {caller : Caller}
    (habsent : caller = .absent ↔ e.callers r = .absent)
    (hreturned : ∀ s, caller = .returned s → e.isDone r = true ∧ s = waitToFinish) :
    Ordered (e.call r caller) := by
  refine ⟨h.nodup, h.inOrder, h.holder, h.once, h.finishing, h.isDone, h.undone, fun r' => ?_,
    fun r' s hr' => ?_⟩
  · show Function.update e.callers r caller r' = .absent ↔ r' ∉ e.handed.map Prod.fst
    rw [Function.update_apply, ← h.absent r']
    split
    · next heq => rw [heq, habsent]
    · rfl
  · have hr' : Function.update e.callers r caller r' = .returned s := hr'
    rw [Function.update_apply] at hr'
    split at hr'
    · next heq =>
      rw [heq]
      exact hreturned s hr'
    · exact h.returned r' s hr'

/-- A request is put behind those its executor has, and its caller waits for it. -/
theorem put (h : Ordered e) {r : ι} {w : Nat} {x : Executor ι} (hholder : e.holder = some (r, w))
    (hx : e.executors w = some x) :
    Ordered { (e.put w { x with executeQueue := x.executeQueue ++ [r] }).call r .test with
      holder := none, handed := e.handed ++ [(r, w)] } := by
  refine ⟨?_, fun w' => ?_, fun r w hr => (by cases hr), h.once,
    h.finishing_update (List.Subset.refl _) (h.finishing w x · hx), h.isDone,
    h.undone_update hx fun _ => id, fun r' => ?_, fun r' s hr' => ?_⟩
  · rw [List.map_append]
    exact h.nodup.append (List.nodup_singleton r) (by simpa using h.holder r w hholder)
  · show on w' (e.handed ++ [(r, w)]) =
      on w' e.executed ++ pendingAt (Function.update e.executors w _) w'
    rw [on_concat, h.inOrder w', pendingAt_update]
    by_cases heq : w' = w
    · rw [if_pos heq, if_pos heq.symm, heq, pendingAt_eq hx, List.append_assoc, List.append_assoc]
    · rw [if_neg heq, if_neg (Ne.symm heq), List.append_nil]
  · show Function.update e.callers r .test r' = .absent ↔ r' ∉ (e.handed ++ [(r, w)]).map Prod.fst
    rw [Function.update_apply, List.map_append, List.mem_append, not_or, ← h.absent r']
    split
    · next heq => simp [heq]
    · next hne => simp [hne]
  · have hr' : Function.update e.callers r .test r' = .returned s := hr'
    rw [Function.update_apply] at hr'
    split at hr'
    · cases hr'
    · exact h.returned r' s hr'

theorem notify (h : Ordered e) {r : ι} {w : Nat} {queue : List ι}
    (hx : e.executors w = some ⟨.notify r, queue⟩) :
    Ordered ((e.put w ⟨.take, queue⟩).call r (e.callers r).notified) := by
  have hrunning : Ordered (e.put w ⟨.take, queue⟩) :=
    h.running hx rfl (fun r hr => (by cases hr)) (fun r hr => (by cases hr))
  exact hrunning.call Caller.notified_eq_absent fun s hr =>
    h.returned r s (Caller.notified_eq_returned.mp hr)

/-- **One step.** -/
theorem step {requests : ι → AddDocRequest} {parallel : Nat} {a : Step ι}
    (h : Ordered e) (hstep : RequestExector.step requests parallel e a = some e') : Ordered e' := by
  cases step_moves hstep with
  | enqueueNew hfree hnew _ hnone => exact h.enqueueNew hnew hnone
  | enqueueOld hfree hnew _ hx =>
    refine ⟨h.nodup, h.inOrder, fun r w hr => ?_, h.once, h.finishing, h.isDone, h.undone, h.absent,
      h.returned⟩
    cases hr
    exact hnew
  | put hholder hx => exact h.put hholder hx
  | take hx => exact h.running hx rfl (fun r hr => (by cases hr)) (fun r hr => (by cases hr))
  | access hx _ hexecute =>
    exact h.running hx rfl (fun r hr => (by cases hr)) (fun r hr => (by cases hr))
  | finish hx => exact h.finish hx
  | done hx => exact h.done hx
  | notify hx => exact h.notify hx
  | found hcaller hdone =>
    refine h.call (by simp [hcaller]) fun s hs => ?_
    cases hs
    exact ⟨hdone, rfl⟩
  | notFound hcaller => exact h.call (by simp [hcaller]) fun s hs => (by cases hs)
  | sleep hcaller => exact h.call (by simp [hcaller]) fun s hs => (by cases hs)
  | wake hcaller => exact h.call (by simp [hcaller]) fun s hs => (by cases hs)

end Ordered

end RequestExector

end CxxLab.RocksdbLab
