import CxxLab.RocksdbLab.Requests
import CxxLab.Lib.Monitor

/-!
# `rocksdb_lab/executor.cpp` — `Stop`

`Stop` puts a null request in each queue and waits for the threads, all of it with `mtx_`, which `Enqueue`
holds too while it waits for room in a queue. What was enqueued before is executed first (`stop_drains`), and
nobody waits for ever before `Stop` has returned (`nobody_waits`).

A request that is enqueued after `Stop` is never executed if its executor was there before, since the thread
has gone; the one after 32 such requests waits for room with `mtx_`, for ever.

Here a request is executed in one step, and only its executor knows it. A thread that waits for a queue to be
not full or not empty goes on once that is so, as `Put` and `Take` notify all. `Stop` is not called while it
runs.
-/

set_option autoImplicit false

namespace CxxLab.RocksdbLab.Stop

open CxxLab.Lib

variable {τ : Type}

/-! ## The executors -/

/-- A `WorkingThread`. -/
inductive Worker (τ : Type) where
  | take
  | execute (request : τ)
  | exited

/-- An `Executor`. The last two fields are no part of it: they record what was put in its queue by `Enqueue`
and what its thread has executed. -/
structure Executor (τ : Type) where
  worker : Worker τ
  queue : List (Option τ)
  enqueued : List τ
  executed : List τ

theorem execute_ne_exited (request : τ) : Worker.execute request ≠ .exited := by
  intro h
  cases h

theorem take_ne_exited : (Worker.take : Worker τ) ≠ .exited := by
  intro h
  cases h

namespace Executor

def new : Executor τ := ⟨.take, [], [], []⟩

/-- `BlockingQueue::Put`, once there is room. -/
def put (x : Executor τ) (task : Option τ) : Option (Executor τ) :=
  if x.queue.length < queueCapacity then some { x with queue := x.queue ++ [task] } else none

/-- `BlockingQueue::Take`, once there is something, and the test for null. -/
def take (x : Executor τ) : Option (Executor τ) :=
  match x.worker, x.queue with
  | .take, some request :: queue => some { x with worker := .execute request, queue := queue }
  | .take, none :: queue => some { x with worker := .exited, queue := queue }
  | _, _ => none

/-- The end of `Execute`. -/
def finish (x : Executor τ) : Option (Executor τ) :=
  match x.worker with
  | .execute request => some { x with worker := .take, executed := x.executed ++ [request] }
  | _ => none

end Executor

/-- Who has `mtx_`. -/
inductive Holder (τ : Type) where
  | free
  /-- A caller in `Enqueue`, in front of `Put`. -/
  | enqueue (request : τ) (target : Nat)
  /-- `Stop`, in front of the `Put` for this executor. -/
  | putNull (next : Nat)
  /-- `Stop`, in front of the `join` for this executor. -/
  | join (next : Nat)

structure RequestExector (τ : Type) where
  /-- `executors_`; the keys are the places. -/
  executors : List (Executor τ)
  current : Nat
  mtx : Holder τ
  stopped : Bool

inductive Action (τ : Type) where
  | enqueue (request : τ)
  | put
  | stop
  | putNull
  | join
  | take (i : Nat)
  | finish (i : Nat)

/-- A new call. -/
def Action.isFresh : Action τ → Bool
  | .enqueue _ => true
  | .stop => true
  | _ => false

namespace RequestExector

def new : RequestExector τ := ⟨[], 0, .free, false⟩

def set (s : RequestExector τ) (i : Nat) (x : Executor τ) : RequestExector τ :=
  { s with executors := s.executors.set i x }

/-- What a caller or one of the threads does between two points where another can go on. `Routing` is
always -1. -/
def step (parallel : Nat) (s : RequestExector τ) : Action τ → Option (RequestExector τ)
  | .enqueue request =>
    match s.mtx with
    | .free =>
      if 0 < parallel then
        some { s with
          executors := if s.current < s.executors.length then s.executors else s.executors ++ [.new]
          mtx := .enqueue request s.current
          current := (s.current + 1) % parallel }
      else none
    | _ => none
  | .put =>
    match s.mtx with
    | .enqueue request target => do
      let x ← s.executors[target]?
      let y ← x.put (some request)
      return { s.set target { y with enqueued := y.enqueued ++ [request] } with mtx := .free }
    | _ => none
  | .stop =>
    match s.mtx with
    | .free => if s.stopped then none else some { s with mtx := .putNull 0 }
    | _ => none
  | .putNull =>
    match s.mtx with
    | .putNull next =>
      match s.executors[next]? with
      | some x => do
        let y ← x.put none
        return { s.set next y with mtx := .putNull (next + 1) }
      | none => some { s with mtx := .join 0 }
    | _ => none
  | .join =>
    match s.mtx with
    | .join next =>
      match s.executors[next]? with
      | some x =>
        match x.worker with
        | .exited => some { s with mtx := .join (next + 1) }
        | _ => none
      | none => some { s with mtx := .free, stopped := true }
    | _ => none
  | .take i => do
    let x ← s.executors[i]?
    let y ← x.take
    return s.set i y
  | .finish i => do
    let x ← s.executors[i]?
    let y ← x.finish
    return s.set i y

/-! ## What a step can do -/

/-- The cases of `step`. -/
inductive Moves (s : RequestExector τ) : Action τ → RequestExector τ → Prop where
  | enqueueOld {r : τ} {current : Nat} (hfree : s.mtx = .free) (hcurrent : current ≤ s.current + 1)
      (hlt : s.current < s.executors.length) :
      Moves s (.enqueue r) { s with mtx := .enqueue r s.current, current := current }
  | enqueueNew {r : τ} {current : Nat} (hfree : s.mtx = .free) (hcurrent : current ≤ s.current + 1)
      (hge : s.executors.length ≤ s.current) :
      Moves s (.enqueue r)
        { s with executors := s.executors ++ [.new], mtx := .enqueue r s.current, current := current }
  | put {r : τ} {i : Nat} {x y : Executor τ} (hmtx : s.mtx = .enqueue r i) (hx : s.executors[i]? = some x)
      (hy : x.put (some r) = some y) :
      Moves s .put { s.set i { y with enqueued := y.enqueued ++ [r] } with mtx := .free }
  | stop (hfree : s.mtx = .free) (hstopped : s.stopped = false) : Moves s .stop { s with mtx := .putNull 0 }
  | putNull {next : Nat} {x y : Executor τ} (hmtx : s.mtx = .putNull next) (hx : s.executors[next]? = some x)
      (hy : x.put none = some y) : Moves s .putNull { s.set next y with mtx := .putNull (next + 1) }
  | putNullEnd {next : Nat} (hmtx : s.mtx = .putNull next) (hend : s.executors.length ≤ next) :
      Moves s .putNull { s with mtx := .join 0 }
  | join {next : Nat} {x : Executor τ} (hmtx : s.mtx = .join next) (hx : s.executors[next]? = some x)
      (hexited : x.worker = .exited) : Moves s .join { s with mtx := .join (next + 1) }
  | joinEnd {next : Nat} (hmtx : s.mtx = .join next) (hend : s.executors.length ≤ next) :
      Moves s .join { s with mtx := .free, stopped := true }
  | take {i : Nat} {x y : Executor τ} (hx : s.executors[i]? = some x) (hy : x.take = some y) :
      Moves s (.take i) (s.set i y)
  | finish {i : Nat} {x y : Executor τ} (hx : s.executors[i]? = some x) (hy : x.finish = some y) :
      Moves s (.finish i) (s.set i y)

variable {parallel : Nat} {s s' : RequestExector τ}

theorem step_moves {a : Action τ} (h : step parallel s a = some s') : s.Moves a s' := by
  cases a with
  | enqueue r =>
    rw [step] at h
    split at h
    · next hfree =>
      split at h
      · cases h
        have hcurrent := Nat.mod_le (s.current + 1) parallel
        split
        · next hlt => exact .enqueueOld hfree hcurrent hlt
        · next hge => exact .enqueueNew hfree hcurrent (Nat.not_lt.mp hge)
      · cases h
    · cases h
  | put =>
    rw [step] at h
    split at h
    · next r i hmtx =>
      obtain ⟨x, hx, h⟩ := Option.bind_eq_some_iff.mp h
      obtain ⟨y, hy, h⟩ := Option.bind_eq_some_iff.mp h
      cases h
      exact .put hmtx hx hy
    · cases h
  | stop =>
    rw [step] at h
    split at h
    · next hfree =>
      split at h
      · cases h
      · next hstopped =>
        cases h
        exact .stop hfree (Bool.not_eq_true _ ▸ hstopped)
    · cases h
  | putNull =>
    rw [step] at h
    split at h
    · next next hmtx =>
      split at h
      · next x hx =>
        obtain ⟨y, hy, h⟩ := Option.bind_eq_some_iff.mp h
        cases h
        exact .putNull hmtx hx hy
      · next hnone =>
        cases h
        exact .putNullEnd hmtx (List.getElem?_eq_none_iff.mp hnone)
    · cases h
  | join =>
    rw [step] at h
    split at h
    · next next hmtx =>
      split at h
      · next x hx =>
        split at h
        · next hexited =>
          cases h
          exact .join hmtx hx hexited
        · cases h
      · next hnone =>
        cases h
        exact .joinEnd hmtx (List.getElem?_eq_none_iff.mp hnone)
    · cases h
  | take i =>
    obtain ⟨x, hx, h⟩ := Option.bind_eq_some_iff.mp h
    obtain ⟨y, hy, h⟩ := Option.bind_eq_some_iff.mp h
    cases h
    exact .take hx hy
  | finish i =>
    obtain ⟨x, hx, h⟩ := Option.bind_eq_some_iff.mp h
    obtain ⟨y, hy, h⟩ := Option.bind_eq_some_iff.mp h
    cases h
    exact .finish hx hy

end RequestExector

/-! ## One executor -/

namespace Executor

variable {x y : Executor τ}

/-- What the thread is executing. -/
def inHand (x : Executor τ) : List τ :=
  match x.worker with
  | .execute request => [request]
  | _ => []

/-- The thread is there, and no null request is in the queue. -/
structure Open (x : Executor τ) : Prop where
  live : x.worker ≠ .exited
  waiting : ∃ rs : List τ, x.queue = rs.map some ∧ x.executed ++ x.inHand ++ rs = x.enqueued

/-- The null request is in the queue, the last, or the thread has taken it. -/
inductive Closing (x : Executor τ) : Prop where
  | queued (rs : List τ) : x.worker ≠ .exited → x.queue = rs.map some ++ [none] →
      x.executed ++ x.inHand ++ rs = x.enqueued → Closing x
  | taken : x.worker = .exited → x.queue = [] → x.executed = x.enqueued → Closing x

/-- The thread has gone. -/
structure Closed (x : Executor τ) : Prop where
  exited : x.worker = .exited
  waiting : ∃ rs : List τ, x.queue = rs.map some ∧ x.executed ++ rs = x.enqueued

theorem open_new : Open (new : Executor τ) := ⟨take_ne_exited, [], rfl, rfl⟩

theorem put_eq {task : Option τ} (h : x.put task = some y) : y = { x with queue := x.queue ++ [task] } := by
  rw [put] at h
  split at h <;> cases h
  rfl

theorem Open.put {r : τ} (h : x.Open) (hy : x.put (some r) = some y) :
    Open { y with enqueued := y.enqueued ++ [r] } := by
  obtain ⟨rs, hqueue, hall⟩ := h.waiting
  rw [put_eq hy]
  refine ⟨h.live, rs ++ [r], ?_, ?_⟩
  · rw [List.map_append, ← hqueue]
    rfl
  · rw [← List.append_assoc]
    exact congrArg (· ++ [r]) hall

theorem Closed.put {r : τ} (h : x.Closed) (hy : x.put (some r) = some y) :
    Closed { y with enqueued := y.enqueued ++ [r] } := by
  obtain ⟨rs, hqueue, hall⟩ := h.waiting
  rw [put_eq hy]
  refine ⟨h.exited, rs ++ [r], ?_, ?_⟩
  · rw [List.map_append, ← hqueue]
    rfl
  · rw [← List.append_assoc]
    exact congrArg (· ++ [r]) hall

theorem Open.putNull (h : x.Open) (hy : x.put none = some y) : y.Closing := by
  obtain ⟨rs, hqueue, hall⟩ := h.waiting
  rw [put_eq hy]
  exact .queued rs h.live (congrArg (· ++ [none]) hqueue) hall

theorem Open.take (h : x.Open) (hy : x.take = some y) : y.Open ∧ y.enqueued = x.enqueued := by
  obtain ⟨-, rs, hqueue, hall⟩ := h
  obtain ⟨worker, queue, enqueued, executed⟩ := x
  rw [Executor.take] at hy
  split at hy
  · next r queue' hworker hq =>
    cases hy
    cases rs with
    | nil => cases hqueue.symm.trans hq
    | cons r' rs =>
      obtain ⟨hr, hrest⟩ := List.cons.inj (hqueue.symm.trans hq)
      cases hr
      refine ⟨⟨execute_ne_exited r, rs, hrest.symm, ?_⟩, rfl⟩
      have hworker : worker = .take := hworker
      rw [hworker] at hall
      simpa [inHand] using hall
  · next hq =>
    cases rs with
    | nil => cases hqueue.symm.trans hq
    | cons r' rs => cases hqueue.symm.trans hq
  · cases hy

theorem Closing.take (h : x.Closing) (hy : x.take = some y) : y.Closing ∧ y.enqueued = x.enqueued := by
  obtain ⟨worker, queue, enqueued, executed⟩ := x
  rw [Executor.take] at hy
  cases h with
  | queued rs hlive hqueue hall =>
    split at hy
    · next r queue' hworker hq =>
      cases hy
      cases rs with
      | nil => cases hqueue.symm.trans hq
      | cons r' rs =>
        obtain ⟨hr, hrest⟩ := List.cons.inj (hqueue.symm.trans hq)
        cases hr
        refine ⟨.queued rs (execute_ne_exited r) hrest.symm ?_, rfl⟩
        have hworker : worker = .take := hworker
        rw [hworker] at hall
        simpa [inHand] using hall
    · next queue' hworker hq =>
      cases hy
      cases rs with
      | nil =>
        obtain ⟨-, hqueue⟩ := List.cons.inj (hqueue.symm.trans hq)
        have hworker : worker = .take := hworker
        rw [hworker] at hall
        exact ⟨.taken rfl hqueue.symm (by simpa [inHand] using hall), rfl⟩
      | cons r' rs => cases hqueue.symm.trans hq
    · cases hy
  | taken hexited hqueue hall =>
    split at hy
    · next hq => cases hqueue.symm.trans hq
    · next hq => cases hqueue.symm.trans hq
    · cases hy

theorem finish_eq (hy : x.finish = some y) : ∃ r, x.worker = .execute r ∧
    y = { x with worker := .take, executed := x.executed ++ [r] } := by
  rw [finish] at hy
  split at hy
  · next r hworker =>
    cases hy
    exact ⟨r, hworker, rfl⟩
  · cases hy

theorem Open.finish (h : x.Open) (hy : x.finish = some y) : y.Open ∧ y.enqueued = x.enqueued := by
  obtain ⟨r, hworker, rfl⟩ := finish_eq hy
  obtain ⟨-, rs, hqueue, hall⟩ := h
  refine ⟨⟨take_ne_exited, rs, hqueue, ?_⟩, rfl⟩
  rw [inHand, hworker] at hall
  simpa [inHand] using hall

theorem Closing.finish (h : x.Closing) (hy : x.finish = some y) : y.Closing ∧ y.enqueued = x.enqueued := by
  obtain ⟨r, hworker, rfl⟩ := finish_eq hy
  cases h with
  | queued rs hlive hqueue hall =>
    refine ⟨.queued rs take_ne_exited hqueue ?_, rfl⟩
    rw [inHand, hworker] at hall
    simpa [inHand] using hall
  | taken hexited => cases hworker.symm.trans hexited

theorem take_eq_none (h : x.worker = .exited) : x.take = none := by rw [take, h]

theorem finish_eq_none (h : x.worker = .exited) : x.finish = none := by rw [finish, h]

/-- A thread that is there and has something to do can go on. -/
theorem exists_step (hlive : x.worker ≠ .exited) (hwork : x.queue ≠ [] ∨ x.inHand ≠ []) :
    (∃ y, x.take = some y) ∨ ∃ y, x.finish = some y := by
  obtain ⟨worker, queue, enqueued, executed⟩ := x
  cases worker with
  | exited => exact absurd rfl hlive
  | execute r => exact Or.inr ⟨_, rfl⟩
  | take =>
    cases queue with
    | nil =>
      rcases hwork with h | h
      · exact absurd rfl h
      · exact absurd rfl h
    | cons task queue => cases task <;> exact Or.inl ⟨_, rfl⟩

theorem exists_put (h : x.queue.length < queueCapacity) (task : Option τ) : ∃ y, x.put task = some y :=
  ⟨_, if_pos h⟩

/-- What the thread does. -/
def Goes (x y : Executor τ) : Prop := x.take = some y ∨ x.finish = some y

theorem Goes.live (h : x.Goes y) : x.worker ≠ .exited := by
  intro hexited
  rcases h with h | h
  · rw [take_eq_none hexited] at h
    cases h
  · rw [finish_eq_none hexited] at h
    cases h

theorem Goes.keepsOpen (h : x.Goes y) (hx : x.Open) : y.Open ∧ y.enqueued = x.enqueued :=
  h.elim hx.take hx.finish

theorem Goes.keepsClosing (h : x.Goes y) (hx : x.Closing) : y.Closing ∧ y.enqueued = x.enqueued :=
  h.elim hx.take hx.finish

theorem Closing.executed_eq (h : x.Closing) (hexited : x.worker = .exited) :
    x.queue = [] ∧ x.executed = x.enqueued := by
  cases h with
  | queued rs hlive => exact absurd hexited hlive
  | taken _ hqueue hall => exact ⟨hqueue, hall⟩

theorem Open.executed_eq (h : x.Open) (hidle : x.queue = [] ∧ x.inHand = []) :
    x.executed = x.enqueued := by
  obtain ⟨-, rs, hqueue, hall⟩ := h
  rw [hidle.1] at hqueue
  rw [List.map_eq_nil_iff.mp hqueue.symm, hidle.2, List.append_nil, List.append_nil] at hall
  exact hall

/-- How many steps an executor can still take. -/
def cost (x : Executor τ) : Nat := 2 * x.queue.length + x.inHand.length

theorem cost_put {task : Option τ} (h : x.put task = some y) : cost y = cost x + 2 := by
  have hhand : y.inHand = x.inHand := by
    rw [put_eq h]
    rfl
  rw [cost, cost, hhand, put_eq h, List.length_append, List.length_singleton]
  omega

theorem cost_goes (h : x.Goes y) : cost y + 1 ≤ cost x := by
  obtain ⟨worker, queue, enqueued, executed⟩ := x
  rcases h with h | h
  · rw [take] at h
    split at h
    · next r queue' hworker hqueue =>
      cases h
      have hworker : worker = .take := hworker
      have hqueue : queue = some r :: queue' := hqueue
      simp only [cost, inHand, hworker, hqueue, List.length_cons, List.length_nil]
      omega
    · next queue' hworker hqueue =>
      cases h
      have hworker : worker = .take := hworker
      have hqueue : queue = none :: queue' := hqueue
      simp only [cost, inHand, hworker, hqueue, List.length_cons, List.length_nil]
      omega
    · cases h
  · obtain ⟨r, hworker, rfl⟩ := finish_eq h
    have hworker : worker = .execute r := hworker
    simp only [cost, inHand, hworker, List.length_cons, List.length_nil]
    omega

end Executor

/-! ## The invariant -/

namespace RequestExector

variable {s s' : RequestExector τ}

/-- What the executor at place `i` is like, by where `Stop` is. -/
def Fits (s : RequestExector τ) (i : Nat) (x : Executor τ) : Prop :=
  match s.mtx with
  | .putNull next => (i < next → x.Closing) ∧ (next ≤ i → x.Open)
  | .join next => x.Closing ∧ (i < next → x.worker = .exited)
  | _ => x.Open ∨ s.stopped = true ∧ x.Closed

structure Inv (s : RequestExector τ) : Prop where
  current : s.current ≤ s.executors.length
  target : ∀ r i, s.mtx = .enqueue r i → i < s.executors.length
  fits : ∀ i x, s.executors[i]? = some x → s.Fits i x

theorem inv_new : Inv (new : RequestExector τ) where
  current := Nat.le_refl 0
  target := by
    intro r i h
    cases h
  fits := by
    intro i x hx
    cases hx

theorem Fits.goes {i : Nat} {x y : Executor τ} (h : s.Fits i x) (hgoes : x.Goes y) : s.Fits i y := by
  unfold Fits at *
  split at h
  · exact ⟨fun hi => (hgoes.keepsClosing (h.1 hi)).1, fun hi => (hgoes.keepsOpen (h.2 hi)).1⟩
  · exact ⟨(hgoes.keepsClosing h.1).1, fun hi => absurd (h.2 hi) hgoes.live⟩
  · rcases h with h | ⟨-, h⟩
    · exact Or.inl (hgoes.keepsOpen h).1
    · exact absurd h.exited hgoes.live

section Read

variable {i : Nat} {x : Executor τ}

theorem Inv.free (h : s.Inv) (hmtx : s.mtx = .free) (hx : s.executors[i]? = some x) :
    x.Open ∨ s.stopped = true ∧ x.Closed := by
  have hfits := h.fits i x hx
  rw [Fits, hmtx] at hfits
  exact hfits

theorem Inv.enqueue (h : s.Inv) {r : τ} {j : Nat} (hmtx : s.mtx = .enqueue r j)
    (hx : s.executors[i]? = some x) : x.Open ∨ s.stopped = true ∧ x.Closed := by
  have hfits := h.fits i x hx
  rw [Fits, hmtx] at hfits
  exact hfits

theorem Inv.putNull (h : s.Inv) {next : Nat} (hmtx : s.mtx = .putNull next) (hx : s.executors[i]? = some x) :
    (i < next → x.Closing) ∧ (next ≤ i → x.Open) := by
  have hfits := h.fits i x hx
  rw [Fits, hmtx] at hfits
  exact hfits

theorem Inv.join (h : s.Inv) {next : Nat} (hmtx : s.mtx = .join next) (hx : s.executors[i]? = some x) :
    x.Closing ∧ (i < next → x.worker = .exited) := by
  have hfits := h.fits i x hx
  rw [Fits, hmtx] at hfits
  exact hfits

end Read

/-- A step that changes the executor at place `i`. -/
theorem Inv.change (h : s.Inv) {i : Nat} {y : Executor τ} (hset : s'.executors = s.executors.set i y)
    (hcurrent : s'.current = s.current) (htarget : ∀ r j, s'.mtx = .enqueue r j → j < s.executors.length)
    (hat : s'.Fits i y) (helse : ∀ j z, j ≠ i → s.executors[j]? = some z → s'.Fits j z) : s'.Inv := by
  refine ⟨?_, fun r j hmtx => ?_, fun j z hz => ?_⟩
  · rw [hset, List.length_set, hcurrent]
    exact h.current
  · rw [hset, List.length_set]
    exact htarget r j hmtx
  · rw [hset] at hz
    rcases getElem?_set_cases hz with ⟨rfl, rfl⟩ | ⟨hne, hz⟩
    · exact hat
    · exact helse j z hne hz

theorem Inv.goes (h : s.Inv) {i : Nat} {x y : Executor τ} (hx : s.executors[i]? = some x) (hgoes : x.Goes y) :
    (s.set i y).Inv :=
  h.change rfl rfl h.target ((h.fits i x hx).goes hgoes) fun j z _ hz => h.fits j z hz

theorem Inv.step {a : Action τ} (h : s.Inv) (hstep : s.Moves a s') : s'.Inv := by
  cases hstep with
  | enqueueOld hfree hcurrent hlt =>
    refine ⟨hcurrent.trans hlt, fun r i hmtx => ?_, fun i x hx => h.free hfree hx⟩
    cases hmtx
    exact hlt
  | enqueueNew hfree hcurrent hge =>
    have hlen : (s.executors ++ [Executor.new]).length = s.executors.length + 1 := by
      rw [List.length_append, List.length_singleton]
    have hle := h.current
    refine ⟨?_, fun r i hmtx => ?_, fun i x hx => ?_⟩
    · rw [hlen]
      exact hcurrent.trans (Nat.succ_le_succ hle)
    · cases hmtx
      rw [hlen]
      exact Nat.lt_succ_of_le hle
    · rcases Nat.lt_or_ge i s.executors.length with hi | hi
      · exact h.free hfree (by rw [← hx, List.getElem?_append_left hi])
      · rw [List.getElem?_append_right hi] at hx
        obtain rfl := List.mem_singleton.mp (List.mem_of_getElem? hx)
        exact Or.inl Executor.open_new
  | put hmtx hx hy =>
    refine h.change rfl rfl (fun r' j hmtx' => by cases hmtx') ?_ fun j z _ hz => h.enqueue hmtx hz
    rcases h.enqueue hmtx hx with hopen | ⟨hstopped, hclosed⟩
    · exact Or.inl (hopen.put hy)
    · exact Or.inr ⟨hstopped, hclosed.put hy⟩
  | stop hfree hstopped =>
    refine ⟨h.current, fun r i hmtx => (by cases hmtx), fun i x hx => ?_⟩
    refine ⟨fun hi => absurd hi (Nat.not_lt_zero i), fun _ => ?_⟩
    rcases h.free hfree hx with hopen | ⟨htrue, -⟩
    · exact hopen
    · rw [hstopped] at htrue
      cases htrue
  | putNull hmtx hx hy =>
    refine h.change rfl rfl (fun r j hmtx' => by cases hmtx') ?_ fun j z hne hz => ?_
    · exact ⟨fun _ => ((h.putNull hmtx hx).2 (Nat.le_refl _)).putNull hy,
        fun hj => absurd hj (Nat.not_succ_le_self _)⟩
    · exact ⟨fun hj => (h.putNull hmtx hz).1 (by omega), fun hj => (h.putNull hmtx hz).2 (by omega)⟩
  | putNullEnd hmtx hend =>
    refine ⟨h.current, fun r i hmtx' => (by cases hmtx'), fun i x hx => ?_⟩
    obtain ⟨hi, -⟩ := List.getElem?_eq_some_iff.mp hx
    exact ⟨(h.putNull hmtx hx).1 (Nat.lt_of_lt_of_le hi hend), fun hi => absurd hi (Nat.not_lt_zero i)⟩
  | join hmtx hx hexited =>
    refine ⟨h.current, fun r i hmtx' => (by cases hmtx'), fun i z hz => ?_⟩
    refine ⟨(h.join hmtx hz).1, fun hi => ?_⟩
    rcases Nat.lt_succ_iff_lt_or_eq.mp hi with hi | rfl
    · exact (h.join hmtx hz).2 hi
    · rw [hx] at hz
      rw [← Option.some.inj hz]
      exact hexited
  | joinEnd hmtx hend =>
    refine ⟨h.current, fun r i hmtx' => (by cases hmtx'), fun i x hx => ?_⟩
    obtain ⟨hi, -⟩ := List.getElem?_eq_some_iff.mp hx
    have hexited := (h.join hmtx hx).2 (Nat.lt_of_lt_of_le hi hend)
    obtain ⟨hqueue, hall⟩ := (h.join hmtx hx).1.executed_eq hexited
    exact Or.inr ⟨rfl, hexited, [], hqueue, by rw [List.append_nil, hall]⟩
  | take hx hy => exact h.goes hx (Or.inl hy)
  | finish hx hy => exact h.goes hx (Or.inr hy)

/-! ## What `Stop` waits for -/

/-- What has become of an executor since `Stop` was called, when it was `x`. -/
def Since (s : RequestExector τ) (x y : Executor τ) : Prop :=
  match s.mtx with
  | .putNull _ => s.stopped = false ∧ y.enqueued = x.enqueued
  | .join _ => s.stopped = false ∧ y.enqueued = x.enqueued
  | _ => s.stopped = true ∧ y.worker = .exited ∧ y.executed = x.enqueued

/-- Since `Stop` was called in state `t`. -/
structure Drains (t s : RequestExector τ) : Prop where
  le : t.executors.length ≤ s.executors.length
  each : ∀ (i : Nat) x y, t.executors[i]? = some x → s.executors[i]? = some y → s.Since x y

variable {t : RequestExector τ}

/-- A step that changes the executor at place `i`, whatever `Stop` waits for. -/
theorem Drains.change (h : Drains t s) {i : Nat} {y z : Executor τ} (hy : s.executors[i]? = some y)
    (hset : s'.executors = s.executors.set i z) (hat : ∀ x, s.Since x y → s'.Since x z)
    (helse : ∀ x v, s.Since x v → s'.Since x v) : Drains t s' := by
  refine ⟨?_, fun j x v hx hv => ?_⟩
  · rw [hset, List.length_set]
    exact h.le
  · rw [hset] at hv
    rcases getElem?_set_cases hv with ⟨rfl, rfl⟩ | ⟨-, hv⟩
    · exact hat x (h.each j x y hx hy)
    · exact helse x v (h.each j x v hx hv)

theorem Drains.goes (h : Drains t s) {i : Nat} {y z : Executor τ} (hy : s.executors[i]? = some y)
    (hgoes : y.Goes z) (hsame : z.enqueued = y.enqueued) : Drains t (s.set i z) := by
  refine h.change hy rfl (fun x heach => ?_) fun _ _ heach => heach
  show Since s x z
  unfold Since at *
  split at heach
  · exact ⟨heach.1, hsame.trans heach.2⟩
  · exact ⟨heach.1, hsame.trans heach.2⟩
  · exact absurd heach.2.1 hgoes.live

theorem enqueued_of_goes {i : Nat} {x y : Executor τ} (hfits : s.Fits i x) (hgoes : x.Goes y) :
    y.enqueued = x.enqueued := by
  unfold Fits at hfits
  split at hfits
  · next next _ =>
    rcases Nat.lt_or_ge i next with hi | hi
    · exact (hgoes.keepsClosing (hfits.1 hi)).2
    · exact (hgoes.keepsOpen (hfits.2 hi)).2
  · exact (hgoes.keepsClosing hfits.1).2
  · rcases hfits with hopen | ⟨-, hclosed⟩
    · exact (hgoes.keepsOpen hopen).2
    · exact absurd hclosed.exited hgoes.live

theorem since_free {x y : Executor τ} (hmtx : s.mtx = .free) :
    s.Since x y ↔ s.stopped = true ∧ y.worker = .exited ∧ y.executed = x.enqueued := by
  rw [Since, hmtx]

theorem since_enqueue {x y : Executor τ} {r : τ} {i : Nat} (hmtx : s.mtx = .enqueue r i) :
    s.Since x y ↔ s.stopped = true ∧ y.worker = .exited ∧ y.executed = x.enqueued := by
  rw [Since, hmtx]

theorem since_putNull {x y : Executor τ} {next : Nat} (hmtx : s.mtx = .putNull next) :
    s.Since x y ↔ s.stopped = false ∧ y.enqueued = x.enqueued := by
  rw [Since, hmtx]

theorem since_join {x y : Executor τ} {next : Nat} (hmtx : s.mtx = .join next) :
    s.Since x y ↔ s.stopped = false ∧ y.enqueued = x.enqueued := by
  rw [Since, hmtx]

theorem Drains.step {a : Action τ} (h : Drains t s) (hinv : s.Inv) (hstep : s.Moves a s') : Drains t s' := by
  cases hstep with
  | enqueueOld hfree _ _ => exact ⟨h.le, fun i x y hx hy => (since_free hfree).mp (h.each i x y hx hy)⟩
  | enqueueNew hfree _ _ =>
    refine ⟨?_, fun i x y hx hy => ?_⟩
    · rw [List.length_append]
      exact h.le.trans (Nat.le_add_right _ _)
    · obtain ⟨hi, -⟩ := List.getElem?_eq_some_iff.mp hx
      rw [List.getElem?_append_left (Nat.lt_of_lt_of_le hi h.le)] at hy
      exact (since_free hfree).mp (h.each i x y hx hy)
  | put hmtx hy hz =>
    refine h.change hy rfl (fun x heach => ?_) fun _ _ => (since_enqueue hmtx).mp
    have hsame := (since_enqueue hmtx).mp heach
    rw [Executor.put_eq hz]
    exact hsame
  | stop hfree hstopped =>
    refine ⟨h.le, fun i x y hx hy => ?_⟩
    have heach := (since_free hfree).mp (h.each i x y hx hy)
    exact absurd (heach.1.symm.trans hstopped) (by decide)
  | putNull hmtx hy hz =>
    refine h.change hy rfl (fun x heach => ?_) fun _ _ => (since_putNull hmtx).mp
    have hsame := (since_putNull hmtx).mp heach
    rw [Executor.put_eq hz]
    exact hsame
  | putNullEnd hmtx _ => exact ⟨h.le, fun i x y hx hy => (since_putNull hmtx).mp (h.each i x y hx hy)⟩
  | join hmtx _ _ => exact ⟨h.le, fun i x y hx hy => (since_join hmtx).mp (h.each i x y hx hy)⟩
  | joinEnd hmtx hend =>
    refine ⟨h.le, fun i x y hx hy => ?_⟩
    have heach := (since_join hmtx).mp (h.each i x y hx hy)
    obtain ⟨hi, -⟩ := List.getElem?_eq_some_iff.mp hy
    have hexited := (hinv.join hmtx hy).2 (Nat.lt_of_lt_of_le hi hend)
    exact ⟨rfl, hexited, ((hinv.join hmtx hy).1.executed_eq hexited).2.trans heach.2⟩
  | take hx hy =>
    exact h.goes hx (Or.inl hy) (enqueued_of_goes (hinv.fits _ _ hx) (Or.inl hy))
  | finish hx hy =>
    exact h.goes hx (Or.inr hy) (enqueued_of_goes (hinv.fits _ _ hx) (Or.inr hy))

theorem inv_run {parallel : Nat} {as : List (Action τ)} (h : s.Inv)
    (hrun : runSteps (step parallel) s as = some s') : s'.Inv :=
  runSteps_inv (fun _ _ _ hs hstep => hs.step (step_moves hstep)) h hrun

/-- **`Stop` drains the queues.** When it has returned, each executor has executed what had been enqueued for
it before `Stop`, each request once and in that order, and it never executes anything else. -/
theorem stop_drains {parallel : Nat} {as bs : List (Action τ)}
    (hbefore : runSteps (step parallel) new as = some s)
    (hafter : runSteps (step parallel) s (.stop :: bs) = some s') (hstopped : s'.stopped = true) :
    ∀ (i : Nat) (x : Executor τ), s.executors[i]? = some x →
      ∃ y, s'.executors[i]? = some y ∧ y.worker = .exited ∧ y.executed = x.enqueued := by
  obtain ⟨t, hstop, hrun⟩ := Option.bind_eq_some_iff.mp hafter
  have hinv := inv_run inv_new hbefore
  have hmoves := step_moves hstop
  have hdrains : Drains s t := by
    cases hmoves with
    | stop hfree hlive =>
      refine ⟨Nat.le_refl _, fun i x y hx hy => ⟨hlive, ?_⟩⟩
      rw [Option.some.inj (hx.symm.trans hy)]
  have hboth : s'.Inv ∧ Drains s s' :=
    runSteps_inv (I := fun s' => s'.Inv ∧ Drains s s')
      (fun _ _ _ hs hstep => ⟨hs.1.step (step_moves hstep), hs.2.step hs.1 (step_moves hstep)⟩)
      ⟨hinv.step hmoves, hdrains⟩ hrun
  intro i x hx
  obtain ⟨hi, -⟩ := List.getElem?_eq_some_iff.mp hx
  obtain ⟨y, hy⟩ : ∃ y, s'.executors[i]? = some y :=
    ⟨_, List.getElem?_eq_getElem (Nat.lt_of_lt_of_le hi hboth.2.le)⟩
  have heach := hboth.2.each i x y hx hy
  unfold Since at heach
  split at heach
  · exact absurd (heach.1.symm.trans hstopped) (by decide)
  · exact absurd (heach.1.symm.trans hstopped) (by decide)
  · exact ⟨y, hy, heach.2⟩

/-- A request that is still in the queue when `Stop` is called, and one that comes too late. -/
theorem stop_drains_late : ∃ s s' : RequestExector Nat,
    runSteps (step 1) new [.enqueue 7, .put] = some s ∧
    runSteps (step 1) s [.stop, .putNull, .putNull, .take 0, .finish 0, .take 0, .join, .join, .enqueue 8, .put] =
      some s' ∧
    ∃ y, s'.executors[0]? = some y ∧ y.worker = .exited ∧ y.executed = [7] :=
  ⟨_, _, rfl, rfl, @stop_drains Nat _ _ 1 [.enqueue 7, .put]
    [.putNull, .putNull, .take 0, .finish 0, .take 0, .join, .join, .enqueue 8, .put] rfl rfl rfl 0 _ rfl⟩

/-! ## Nobody waits for ever -/

/-- How many steps whoever has `mtx_` can still take, with `n` executors, and what they add to the queues. -/
def holderCost (n : Nat) : Holder τ → Nat
  | .free => 0
  | .enqueue _ _ => 3
  | .putNull next => 3 * (n - next) + n + 2
  | .join next => n - next + 1

def due (s : RequestExector τ) : Nat := (s.executors.map Executor.cost).sum + holderCost s.executors.length s.mtx

theorem sum_set {l : List (Executor τ)} {i : Nat} {x : Executor τ} (h : l[i]? = some x) (y : Executor τ) :
    x.cost + ((l.set i y).map Executor.cost).sum = y.cost + (l.map Executor.cost).sum := by
  have hperm := ((perm_set h y).map Executor.cost).sum_nat
  rwa [List.map_cons, List.map_cons, List.sum_cons, List.sum_cons] at hperm

theorem due_of_moves {a : Action τ} (h : s.Moves a s') (hfresh : a.isFresh = false) : s'.due + 1 ≤ s.due := by
  cases h with
  | enqueueOld => cases hfresh
  | enqueueNew => cases hfresh
  | stop => cases hfresh
  | @put r i x y hmtx hx hy =>
    have hsum := sum_set hx { y with enqueued := y.enqueued ++ [r] }
    have hcost : Executor.cost { y with enqueued := y.enqueued ++ [r] } = x.cost + 2 := by
      show y.cost = x.cost + 2
      exact Executor.cost_put hy
    simp only [due, set, hmtx, holderCost]
    omega
  | @putNull next x y hmtx hx hy =>
    have hsum := sum_set hx y
    have hcost := Executor.cost_put hy
    obtain ⟨hlt, -⟩ := List.getElem?_eq_some_iff.mp hx
    simp only [due, set, hmtx, holderCost, List.length_set]
    omega
  | putNullEnd hmtx hend =>
    simp only [due, hmtx, holderCost]
    omega
  | join hmtx hx _ =>
    obtain ⟨hlt, -⟩ := List.getElem?_eq_some_iff.mp hx
    simp only [due, hmtx, holderCost]
    omega
  | joinEnd hmtx hend =>
    simp only [due, hmtx, holderCost]
    omega
  | @take i x y hx hy =>
    have hsum := sum_set hx y
    have hcost := Executor.cost_goes (Or.inl hy)
    simp only [due, set, List.length_set]
    omega
  | @finish i x y hx hy =>
    have hsum := sum_set hx y
    have hcost := Executor.cost_goes (Or.inr hy)
    simp only [due, set, List.length_set]
    omega

/-- Nobody can go on. -/
def AtRest (parallel : Nat) (s : RequestExector τ) : Prop :=
  ∀ a : Action τ, a.isFresh = false → step parallel s a = none

theorem AtRest.idle {parallel : Nat} (h : s.AtRest parallel) {i : Nat} {x : Executor τ}
    (hx : s.executors[i]? = some x) (hlive : x.worker ≠ .exited) : x.queue = [] ∧ x.inHand = [] := by
  by_contra hwork
  rw [not_and_or] at hwork
  rcases Executor.exists_step hlive hwork with ⟨y, hy⟩ | ⟨y, hy⟩
  · have hstep := h (.take i) rfl
    rw [step, hx, Option.bind_eq_bind, Option.bind_some, hy] at hstep
    cases hstep
  · have hstep := h (.finish i) rfl
    rw [step, hx, Option.bind_eq_bind, Option.bind_some, hy] at hstep
    cases hstep

/-- Where a thread has nothing to do there is room in its queue. -/
theorem AtRest.exists_put {parallel : Nat} (h : s.AtRest parallel) {i : Nat} {x : Executor τ}
    (hx : s.executors[i]? = some x) (hlive : x.worker ≠ .exited) (task : Option τ) :
    ∃ y, x.put task = some y := by
  refine Executor.exists_put ?_ task
  rw [(h.idle hx hlive).1]
  exact Nat.succ_pos 31

/-- Who has `mtx_` when nobody can go on. -/
theorem AtRest.mtx {parallel : Nat} (h : s.AtRest parallel) (hinv : s.Inv) :
    s.mtx = .free ∨ s.stopped = true ∧ ∃ r i, s.mtx = .enqueue r i := by
  cases hmtx : s.mtx with
  | free => exact Or.inl rfl
  | enqueue r i =>
    obtain ⟨x, hx⟩ : ∃ x, s.executors[i]? = some x := ⟨_, List.getElem?_eq_getElem (hinv.target r i hmtx)⟩
    rcases hinv.enqueue hmtx hx with hopen | ⟨hstopped, -⟩
    · obtain ⟨y, hy⟩ := h.exists_put hx hopen.live (some r)
      have hstep := h .put rfl
      rw [step, hmtx] at hstep
      dsimp only at hstep
      rw [hx, Option.bind_eq_bind, Option.bind_some, hy] at hstep
      cases hstep
    · exact Or.inr ⟨hstopped, r, i, rfl⟩
  | putNull next =>
    have hstep := h .putNull rfl
    rw [step, hmtx] at hstep
    dsimp only at hstep
    cases hx : s.executors[next]? with
    | none =>
      rw [hx] at hstep
      cases hstep
    | some x =>
      have hopen := (hinv.putNull hmtx hx).2 (Nat.le_refl _)
      obtain ⟨y, hy⟩ := h.exists_put hx hopen.live none
      rw [hx] at hstep
      dsimp only at hstep
      rw [hy] at hstep
      cases hstep
  | join next =>
    have hstep := h .join rfl
    rw [step, hmtx] at hstep
    dsimp only at hstep
    cases hx : s.executors[next]? with
    | none =>
      rw [hx] at hstep
      cases hstep
    | some x =>
      rw [hx] at hstep
      dsimp only at hstep
      cases (hinv.join hmtx hx).1 with
      | queued rs hlive hqueue _ =>
        rw [(h.idle hx hlive).1] at hqueue
        exact absurd hqueue.symm (List.append_ne_nil_of_right_ne_nil _ (List.cons_ne_nil _ _))
      | taken hexited _ _ =>
        rw [hexited] at hstep
        cases hstep

/-- **Nobody waits for ever.** From a state that is reached, without new calls, no run is longer than `due`.
Where nobody can go on, each thread that has not gone has executed what was enqueued for it, and `mtx_` is
free, so that `Stop` has returned if it was called; only a call of `Enqueue` after `Stop` can be left. -/
theorem nobody_waits {parallel : Nat} {as : List (Action τ)} (hrun : runSteps (step parallel) new as = some s) :
    (∀ bs s', (∀ a ∈ bs, Action.isFresh a = false) → runSteps (step parallel) s bs = some s' →
      bs.length ≤ s.due) ∧
    (s.AtRest parallel →
      (s.mtx = .free ∨ s.stopped = true ∧ ∃ r i, s.mtx = .enqueue r i) ∧
      ∀ x ∈ s.executors, s.stopped = false ∨ x.worker ≠ .exited → x.executed = x.enqueued) := by
  have hinv := inv_run inv_new hrun
  refine ⟨fun bs s' hfresh hrun => ?_, fun hrest => ⟨hrest.mtx hinv, fun x hx hlive => ?_⟩⟩
  · have hle := length_run_le (g := fun _ => false) (k := 0)
      (fun _ _ _ hone => due_of_moves (step_moves hone)) hfresh hrun
    omega
  · obtain ⟨i, hx⟩ := List.mem_iff_getElem?.mp hx
    have hopen : x.Open := by
      have hcases : x.Open ∨ s.stopped = true ∧ x.Closed := by
        rcases hrest.mtx hinv with hmtx | ⟨-, r, j, hmtx⟩
        · exact hinv.free hmtx hx
        · exact hinv.enqueue hmtx hx
      rcases hcases with hopen | ⟨hstopped, hclosed⟩
      · exact hopen
      · rcases hlive with hlive | hlive
        · exact absurd (hstopped.symm.trans hlive) (by decide)
        · exact absurd hclosed.exited hlive
    exact hopen.executed_eq (hrest.idle hx hopen.live)

/-- Two requests for two executors. -/
def twoPuts : List (Action Nat) := [.enqueue 7, .put, .enqueue 8, .put]

/-- The two threads side by side. -/
def twoTurns : List (Action Nat) := [.take 1, .take 0, .finish 0, .finish 1]

theorem nobody_waits_two : ∃ s s' : RequestExector Nat,
    runSteps (step 2) new twoPuts = some s ∧ runSteps (step 2) s twoTurns = some s' ∧ 4 ≤ s.due ∧
      (s'.mtx = .free ∨ s'.stopped = true ∧ ∃ r i, s'.mtx = .enqueue r i) ∧
      ∀ x ∈ s'.executors, x.executed = x.enqueued := by
  refine ⟨_, _, rfl, rfl, (@nobody_waits Nat _ 2 twoPuts rfl).1 twoTurns _ (by decide) rfl, ?_⟩
  -- the state is reached by both runs together, and nobody can go on from it
  obtain ⟨hmtx, hall⟩ := (@nobody_waits Nat _ 2 (twoPuts ++ twoTurns) rfl).2 fun a hold => by
    cases a with
    | enqueue | stop => cases hold
    | put | putNull | join => rfl
    | take i | finish i => rcases i with _ | _ | i <;> rfl
  exact ⟨hmtx, fun x hx => hall x hx (Or.inl rfl)⟩

end RequestExector

end CxxLab.RocksdbLab.Stop
