import CxxLab.RocksdbLab.Requests
import CxxLab.Lib.Monitor

/-!
# Requests come to rest

An executor that is left alone with its requests comes to rest. Each step is paid for (`due_of_moves`): a
request that is handed in brings with it what its way through a queue and a thread costs, and what it costs that
its caller is woken and looks at `done_` once more. So a run without new requests is no longer than
`due`, unless callers wake up by themselves, which may cost three steps each time.

At rest nobody has anything left to do, so every request that was handed in has been executed and is done
(`AtRest.isDone`). But a caller may be asleep: this is not excluded here, and it happens.
-/

set_option autoImplicit false

namespace CxxLab.RocksdbLab

open CxxLab.Lib RocksDBImpl

namespace RequestExector

variable {ι : Type} {e e' : RequestExector ι}

/-! ## A run comes to rest -/

/-- The executors have numbers below `parallel_`, and who holds `mtx_` has made the one its request is for. -/
structure Sized (parallel : Nat) (e : RequestExector ι) : Prop where
  current : 0 < parallel → e.current < parallel
  number : ∀ w x, e.executors w = some x → w < parallel
  target : ∀ r w, e.holder = some (r, w) → ∃ x, e.executors w = some x

namespace Sized

variable {parallel : Nat}

theorem start (impl : RocksDBImpl) : Sized parallel (start impl : RequestExector ι) := by
  constructor <;> simp [RequestExector.start]

/-- One executor is made, or goes on. -/
theorem put (h : Sized parallel e) {w : Nat} {y : Executor ι} (hw : w < parallel)
    (hexecutors : e'.executors = Function.update e.executors w (some y))
    (hcurrent : 0 < parallel → e'.current < parallel)
    (hholder : ∀ r w, e'.holder = some (r, w) → ∃ x, e'.executors w = some x) : Sized parallel e' := by
  refine ⟨hcurrent, fun w' x hx => ?_, hholder⟩
  rw [hexecutors, Function.update_apply] at hx
  split at hx
  · next heq => rwa [heq]
  · exact h.number w' x hx

/-- An executor goes on. -/
theorem goOn (h : Sized parallel e) {w : Nat} {x y : Executor ι} (hx : e.executors w = some x)
    (hexecutors : e'.executors = Function.update e.executors w (some y))
    (hcurrent : e'.current = e.current)
    (hholder : ∀ r w, e'.holder = some (r, w) → e.holder = some (r, w)) : Sized parallel e' := by
  refine h.put (h.number w x hx) hexecutors (hcurrent ▸ h.current) fun r w' hr => ?_
  rw [hexecutors, Function.update_apply]
  split
  · exact ⟨y, rfl⟩
  · exact h.target r w' (hholder r w' hr)

/-- **One step.** -/
theorem step [DecidableEq ι] {requests : ι → AddDocRequest} {a : Step ι} (h : Sized parallel e)
    (hstep : RequestExector.step requests parallel e a = some e') : Sized parallel e' := by
  cases step_moves hstep with
  | enqueueNew hfree hnew hparallel hnone =>
    refine h.put (h.current hparallel) rfl (fun _ => Nat.mod_lt _ hparallel) fun r w hr => ?_
    cases hr
    exact ⟨_, Function.update_self ..⟩
  | enqueueOld hfree hnew hparallel hx =>
    refine ⟨fun _ => Nat.mod_lt _ hparallel, h.number, fun r w hr => ?_⟩
    cases hr
    exact ⟨_, hx⟩
  | put hholder hx => exact h.goOn hx rfl rfl fun r w hr => (by cases hr)
  | take hx => exact h.goOn hx rfl rfl fun _ _ => id
  | access hx => exact h.goOn hx rfl rfl fun _ _ => id
  | finish hx => exact h.goOn hx rfl rfl fun _ _ => id
  | done hx => exact h.goOn hx rfl rfl fun _ _ => id
  | notify hx => exact h.goOn hx rfl rfl fun _ _ => id
  | found => exact ⟨h.current, h.number, h.target⟩
  | notFound => exact ⟨h.current, h.number, h.target⟩
  | sleep => exact ⟨h.current, h.number, h.target⟩
  | wake => exact ⟨h.current, h.number, h.target⟩

/-- **One run.** -/
theorem run [DecidableEq ι] {requests : ι → AddDocRequest} {steps : List (Step ι)}
    (h : Sized parallel e)
    (hrun : runSteps (RequestExector.step requests parallel) e steps = some e') : Sized parallel e' :=
  runSteps_inv (fun _ _ _ hs hstep => hs.step hstep) h hrun

end Sized

/-! What is still to pay for. A request pays for its way through queue and thread, and for waking
its caller, who looks at `done_` once more. -/

/-- The accesses of a request with so many documents that are before it. -/
def phaseCost (docs : Nat) : Phase → Nat
  | .waiting => docs + 6
  | .found _ => docs + 5
  | .segment _ _ => docs + 4
  | .adding _ rest _ => rest.length + 3
  | .written _ _ => 2
  | .moved _ _ => 1
  | .done _ => 0

theorem onExecute_cost {request : AddDocRequest} {written : Bool} {impl impl' : RocksDBImpl}
    {phase phase' : Phase} (hphase : phase.isDone = false)
    (h : request.onExecute written impl phase = some (impl', phase')) :
    phaseCost request.docs.length phase' + 1 ≤ phaseCost request.docs.length phase := by
  cases phase with
  | waiting =>
    rw [AddDocRequest.onExecute, work] at h
    · split at h <;> cases h <;> simp only [phaseCost] <;> omega
    · exact fun _ _ heq => (by cases heq)
  | found tid =>
    rw [AddDocRequest.onExecute, work] at h
    · split at h <;> cases h <;> simp only [phaseCost] <;> omega
    · exact fun _ _ heq => (by cases heq)
  | segment tid sid =>
    cases h
    simp only [phaseCost]
    omega
  | adding tid rest c =>
    cases rest with
    | nil =>
      rw [AddDocRequest.onExecute] at h
      split at h <;> cases h <;> simp only [phaseCost, List.length_nil] <;> omega
    | cons doc rest =>
      obtain ⟨c', -, heq⟩ := Option.map_eq_some_iff.mp h
      cases heq
      simp only [phaseCost, List.length_cons]
      omega
  | written tid c =>
    cases h
    simp only [phaseCost]
    omega
  | moved tid c =>
    cases h
    simp only [phaseCost]
    omega
  | done status => cases hphase

section Due

variable (requests : ι → AddDocRequest)

def requestCost (r : ι) : Nat := (requests r).docs.length + 12

def threadCost : Thread ι → Nat
  | .take => 0
  | .execute r phase => phaseCost (requests r).docs.length phase + 5
  | .finish _ => 4
  | .notify _ => 3

def executorCost : Option (Executor ι) → Nat
  | none => 0
  | some x => threadCost requests x.executeThread + (x.executeQueue.map (requestCost requests)).sum

def callerCost : Caller → Nat
  | .test => 2
  | .wait => 1
  | .absent | .asleep | .returned _ => 0

def holderCost : Option (ι × Nat) → Nat
  | none => 0
  | some (r, _) => requestCost requests r + 3

/-- **How many steps there are still to take** without a new request and without somebody who wakes up by
himself. -/
def due [DecidableEq ι] (parallel : Nat) (e : RequestExector ι) : Nat :=
  ∑ w ∈ Finset.range parallel, executorCost requests (e.executors w) +
    ∑ r ∈ (e.handed.map Prod.fst).toFinset, callerCost (e.callers r) + holderCost requests e.holder

end Due

/-- A new request. -/
def Step.isFresh : Step ι → Bool
  | .enqueue _ => true
  | _ => false

/-- A caller that wakes up by itself. -/
def Step.isWake : Step ι → Bool
  | .wake _ => true
  | _ => false

variable {requests : ι → AddDocRequest} {parallel : Nat}

theorem sum_executors (requests : ι → AddDocRequest) {w : Nat} {x : Executor ι} (hw : w < parallel) (hx : e.executors w = some x)
    (y : Executor ι) :
    executorCost requests (some x) + ∑ v ∈ Finset.range parallel,
        executorCost requests (Function.update e.executors w (some y) v) =
      executorCost requests (some y) +
        ∑ v ∈ Finset.range parallel, executorCost requests (e.executors v) := by
  have hsum := add_sum_update (Finset.mem_range.mpr hw) (executorCost requests ∘ e.executors)
    (executorCost requests (some y))
  rwa [← Function.comp_update, Function.comp_apply, hx] at hsum

variable [DecidableEq ι]

theorem sum_callers {rs : Finset ι} {r : ι} (hr : r ∈ rs) (caller : Caller) :
    callerCost (e.callers r) + ∑ v ∈ rs, callerCost (Function.update e.callers r caller v) =
      callerCost caller + ∑ v ∈ rs, callerCost (e.callers v) := by
  have hsum := add_sum_update hr (callerCost ∘ e.callers) (callerCost caller)
  rwa [← Function.comp_update, Function.comp_apply] at hsum

/-- What a step of a thread leaves to do. -/
theorem due_put {w : Nat} {x y : Executor ι} {k : Nat} {impl : RocksDBImpl} {status : ι → Status}
    {isDone : ι → Bool} {executed : List (ι × Nat)} (hsized : Sized parallel e)
    (hx : e.executors w = some x)
    (hcost : executorCost requests (some y) + k ≤ executorCost requests (some x)) :
    due requests parallel { e.put w y with
      impl := impl, status := status, isDone := isDone, executed := executed } + k ≤
      due requests parallel e := by
  have hsum := sum_executors requests (hsized.number w x hx) hx y
  simp only [due, RequestExector.put]
  omega

theorem Ordered.mem_of_caller (h : Ordered e) {r : ι} (hr : e.callers r ≠ .absent) :
    r ∈ e.handed.map Prod.fst := by
  by_contra hnot
  exact hr ((h.absent r).mpr hnot)

/-- What a step of a caller leaves to do. -/
theorem due_call (h : Ordered e) {r : ι} {caller : Caller}
    (habsent : e.callers r = .absent → caller = .absent) :
    callerCost (e.callers r) + due requests parallel (e.call r caller) =
      callerCost caller + due requests parallel e := by
  by_cases hr : e.callers r = .absent
  · rw [call, habsent hr, ← hr, Function.update_eq_self]
  · have hsum := sum_callers (e := e) (List.mem_toFinset.mpr (h.mem_of_caller hr)) caller
    simp only [due, call]
    omega

/-- A caller that goes on in `WaitToFinish` pays for it. -/
theorem due_call_le (h : Ordered e) {r : ι} {caller : Caller} {k : Nat}
    (habsent : e.callers r = .absent → caller = .absent)
    (hcost : callerCost caller + k ≤ callerCost (e.callers r)) :
    due requests parallel (e.call r caller) + k ≤ due requests parallel e := by
  have hdue : callerCost (e.callers r) + due requests parallel (e.call r caller) =
      callerCost caller + due requests parallel e := due_call h habsent
  omega

theorem callerCost_notified (caller : Caller) :
    callerCost caller.notified ≤ callerCost caller + 2 := by
  cases caller <;> simp [callerCost, Caller.notified]

/-- **A step is paid for.** -/
theorem due_of_moves (h : Ordered e) (hsized : Sized parallel e) {a : Step ι}
    (hmoves : Moves requests parallel e a e') (hfresh : a.isFresh = false) :
    due requests parallel e' + 1 ≤ due requests parallel e + if a.isWake then 3 else 0 := by
  cases hmoves with
  | enqueueNew => cases hfresh
  | enqueueOld => cases hfresh
  | @put r w x hholder hx =>
    have hexecutors := sum_executors requests (hsized.number w x hx) hx
      { x with executeQueue := x.executeQueue ++ [r] }
    have hqueue : executorCost requests (some { x with executeQueue := x.executeQueue ++ [r] }) =
        executorCost requests (some x) + requestCost requests r := by
      simp only [executorCost, List.map_append, List.sum_append, List.map_singleton, List.sum_singleton]
      omega
    have hnew : r ∉ (e.handed.map Prod.fst).toFinset := by
      simpa using h.holder r w hholder
    have hcallers : ∑ v ∈ ((e.handed ++ [(r, w)]).map Prod.fst).toFinset,
        callerCost (Function.update e.callers r .test v) =
          2 + ∑ v ∈ (e.handed.map Prod.fst).toFinset, callerCost (e.callers v) := by
      have hset : ((e.handed ++ [(r, w)]).map Prod.fst).toFinset =
          insert r (e.handed.map Prod.fst).toFinset := by
        ext v
        simp
      rw [hset, Finset.sum_insert hnew, Function.update_self]
      refine congrArg (2 + ·) (Finset.sum_congr rfl fun v hv => ?_)
      have hne : v ≠ r := by
        rintro rfl
        exact hnew hv
      rw [Function.update_of_ne hne]
    simp only [due, call, RequestExector.put, hholder, holderCost, Step.isWake, hcallers]
    simp only [Bool.false_eq_true, if_false]
    omega
  | @take r w queue hx =>
    refine due_put (k := 1) hsized hx ?_
    simp only [executorCost, threadCost, phaseCost, requestCost, List.map_cons, List.sum_cons]
    omega
  | @access r w written queue phase phase' impl hx hphase hexecute =>
    refine due_put (k := 1) hsized hx ?_
    have hcost := onExecute_cost hphase hexecute
    simp only [executorCost, threadCost]
    omega
  | finish hx =>
    refine due_put (k := 1) hsized hx ?_
    simp only [executorCost, threadCost, phaseCost]
    omega
  | done hx =>
    refine due_put (k := 1) hsized hx ?_
    simp only [executorCost, threadCost]
    omega
  | @notify r w queue hx =>
    -- The thread pays for what its caller has to do again.
    have hput : due requests parallel (e.put w ⟨.take, queue⟩) + 3 ≤ due requests parallel e := by
      refine due_put (k := 3) hsized hx ?_
      simp only [executorCost, threadCost]
      omega
    have hrunning : Ordered (e.put w ⟨.take, queue⟩) :=
      h.running hx rfl (fun r hr => (by cases hr)) (fun r hr => (by cases hr))
    have hcall : callerCost (e.callers r) +
        due requests parallel ((e.put w ⟨.take, queue⟩).call r (e.callers r).notified) =
          callerCost (e.callers r).notified + due requests parallel (e.put w ⟨.take, queue⟩) :=
      due_call hrunning Caller.notified_eq_absent.mpr
    have hnotified := callerCost_notified (e.callers r)
    simp only [Step.isWake, Bool.false_eq_true, if_false]
    omega
  | found hcaller =>
    exact due_call_le (k := 1) h (by simp [hcaller]) (by simp [hcaller, callerCost])
  | notFound hcaller =>
    exact due_call_le (k := 1) h (by simp [hcaller]) (by simp [hcaller, callerCost])
  | sleep hcaller =>
    exact due_call_le (k := 1) h (by simp [hcaller]) (by simp [hcaller, callerCost])
  | @wake r hcaller =>
    have hdue : callerCost (e.callers r) + due requests parallel (e.call r .test) =
        callerCost .test + due requests parallel e := due_call h (by simp [hcaller])
    simp only [hcaller, callerCost] at hdue
    simp only [Step.isWake, if_true]
    omega

/-- **A run without new requests comes to an end**, unless somebody wakes up by itself over and over
again. -/
theorem length_run_le_due (h : Ordered e) (hsized : Sized parallel e) {steps : List (Step ι)}
    (hfresh : ∀ a ∈ steps, a.isFresh = false)
    (hrun : runSteps (step requests parallel) e steps = some e') :
    steps.length ≤ due requests parallel e + 3 * steps.countP Step.isWake := by
  have hinv : ∀ s a s', Ordered s ∧ Sized parallel s → step requests parallel s a = some s' →
      Ordered s' ∧ Sized parallel s' := fun _ _ _ hs hstep => ⟨hs.1.step hstep, hs.2.step hstep⟩
  have hpaid := length_run_le_of_inv hinv
    (fun _ _ _ hs hstep => due_of_moves hs.1 hs.2 (step_moves hstep)) ⟨h, hsized⟩ hfresh hrun
  exact (Nat.le_add_left _ _).trans hpaid

/-! ## At rest -/

/-- Nobody can go on, unless there is a new request or somebody wakes up by itself. -/
def AtRest (requests : ι → AddDocRequest) (parallel : Nat) (e : RequestExector ι) : Prop :=
  ∀ a : Step ι, a.isFresh = false → a.isWake = false → step requests parallel e a = none

/-- A thread whose next access fails an assertion. That is the end of the process. -/
def Aborts (requests : ι → AddDocRequest) (e : RequestExector ι) (w : Nat) : Prop :=
  ∃ r phase queue, e.executors w = some ⟨.execute r phase, queue⟩ ∧ phase.isDone = false ∧
    (requests r).onExecute true e.impl phase = none

/-- Where nobody has anything to do there is nobody who can go on. -/
theorem atRest_of_idle (hsized : Sized parallel e) (hholder : e.holder = none)
    (hidle : ∀ w < parallel, (e.executors w).all Executor.isIdle = true)
    (hcallers : ∀ r, e.callers r ≠ .test ∧ e.callers r ≠ .wait) : AtRest requests parallel e := by
  intro a hfresh hwake
  by_contra hgoes
  obtain ⟨e', hstep⟩ := Option.ne_none_iff_exists'.mp hgoes
  have hbusy : ∀ {w x}, e.executors w = some x → x.isIdle ≠ true → False := by
    intro w x hx hnot
    have hall := hidle w (hsized.number w x hx)
    rw [hx, Option.all_some] at hall
    exact hnot hall
  cases step_moves hstep with
  | enqueueNew => cases hfresh
  | enqueueOld => cases hfresh
  | put hhas => cases hholder.symm.trans hhas
  | take hx => exact hbusy hx (by simp [Executor.isIdle])
  | access hx => exact hbusy hx (by simp [Executor.isIdle])
  | finish hx => exact hbusy hx (by simp [Executor.isIdle])
  | done hx => exact hbusy hx (by simp [Executor.isIdle])
  | notify hx => exact hbusy hx (by simp [Executor.isIdle])
  | found hcaller => exact (hcallers _).1 hcaller
  | notFound hcaller => exact (hcallers _).1 hcaller
  | sleep hcaller => exact (hcallers _).2 hcaller
  | wake => cases hwake

namespace AtRest

variable (h : AtRest requests parallel e)

include h

/-- A thread that can not go on has nothing to do. -/
theorem idle (halive : ∀ w, ¬Aborts requests e w) {w : Nat} {x : Executor ι}
    (hx : e.executors w = some x) : x = ⟨.take, []⟩ := by
  obtain ⟨thread, queue⟩ := x
  cases thread with
  | take =>
    cases queue with
    | nil => rfl
    | cons r queue =>
      have htake := h (.take w) rfl rfl
      simp [step, hx] at htake
  | execute r phase =>
    cases hphase : phase.isDone with
    | true =>
      have hfinish := h (.finish w) rfl rfl
      cases phase <;> cases hphase
      simp [step, hx] at hfinish
    | false =>
      have haccess := h (.access w true) rfl rfl
      cases hexecute : (requests r).onExecute true e.impl phase with
      | none => exact absurd ⟨r, phase, queue, hx, hphase, hexecute⟩ (halive w)
      | some res => simp [step, hx, hphase, hexecute] at haccess
  | finish r =>
    have hdone := h (.done w) rfl rfl
    simp [step, hx] at hdone
  | notify r =>
    have hnotify := h (.notify w) rfl rfl
    simp [step, hx] at hnotify

/-- A caller in `Enqueue` has put its request in the queue. -/
theorem holder (halive : ∀ w, ¬Aborts requests e w) (hsized : Sized parallel e) :
    e.holder = none := by
  cases hholder : e.holder with
  | none => rfl
  | some target =>
    obtain ⟨r, w⟩ := target
    obtain ⟨x, hx⟩ := hsized.target r w hholder
    have hput := h .put rfl rfl
    cases h.idle halive hx
    simp [step, hholder, hx, queueCapacity] at hput

/-- A caller that has not returned sleeps. -/
theorem caller (r : ι) : e.callers r ≠ .test ∧ e.callers r ≠ .wait := by
  constructor
  · intro hcaller
    have htest := h (.test r) rfl rfl
    simp only [step, hcaller] at htest
    split at htest <;> cases htest
  · intro hcaller
    have hsleep := h (.sleep r) rfl rfl
    simp [step, hcaller] at hsleep

/-- **Every request that was handed in is done.** -/
theorem isDone (halive : ∀ w, ¬Aborts requests e w) (hordered : Ordered e) {r : ι}
    (hr : r ∈ e.handed.map Prod.fst) : e.isDone r = true := by
  obtain ⟨⟨r, w⟩, hin, rfl⟩ := List.mem_map.mp hr
  have hmem := mem_on.mpr hin
  have hnothing : pendingAt e.executors w = [] := by
    rw [pendingAt]
    split
    · next x hx =>
      cases h.idle halive hx
      rfl
    · rfl
  rw [hordered.inOrder w, hnothing, List.append_nil] at hmem
  refine (hordered.undone r w (mem_on.mp hmem)).resolve_right ?_
  rintro ⟨queue, hx⟩
  cases h.idle halive hx

end AtRest

end RequestExector

end CxxLab.RocksdbLab
