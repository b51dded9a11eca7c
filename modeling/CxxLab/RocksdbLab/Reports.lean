import CxxLab.RocksdbLab.Rest

/-!
# Requests report their outcome

Three things can go wrong with a request.

* `WaitToFinish` returns OK whatever `status_` is, so a request that has failed is reported as a success.
* The notification of `Done` can be lost, and then `HandleRequest` does not return at all.
* `AddDocs` can fail an assertion. Then nothing returns any more.

The first two are conditions on the steps of a run, `Succeeds`: requests name tables that are there,
writes succeed, and no caller is notified between looking at `done_` and going to sleep. In a
run whose steps meet it each request is executed once and in its turn, and `HandleRequest` returns its
status (`run_reports`).

The invariant has two parts. `Faultless` says that all requests are on their way to OK, and `Awake` that
nobody sleeps whose request is done, unless somebody is about to wake him.
-/

set_option autoImplicit false

namespace CxxLab.RocksdbLab

open Std CxxLab.Lib RocksDBImpl

namespace RequestExector

variable {ι : Type} {e e' : RequestExector ι}

/-! ## What is reported -/

/-- **Requests report their outcome**: each executor executes them in the order in which they were handed in,
none twice, and what `HandleRequest` returns is the status of a request that has been executed. Without new
requests this comes to an end, and then all have been executed and have been reported. A process that has
been aborted has no end of this kind. -/
structure Reports [DecidableEq ι] (requests : ι → AddDocRequest) (parallel : Nat)
    (e : RequestExector ι) : Prop where
  inOrder : ∀ w, on w e.handed = on w e.executed ++ pendingAt e.executors w
  once : (e.executed.map Prod.fst).Nodup
  status : ∀ r s, e.callers r = .returned s → r ∈ e.executed.map Prod.fst ∧ s = e.status r
  ends : ∀ steps e', (∀ a ∈ steps, a.isFresh = false) →
    runSteps (step requests parallel) e steps = some e' →
      steps.length ≤ due requests parallel e + 3 * steps.countP Step.isWake
  finishes : AtRest requests parallel e → (∀ w, ¬Aborts requests e w) →
    e.holder = none ∧ ∀ r ∈ e.handed.map Prod.fst,
      r ∈ e.executed.map Prod.fst ∧ e.callers r = .returned (e.status r)

/-- `AddDocs` finds a table. -/
def Known (impl : RocksDBImpl) (tableName : Bytes) : Prop :=
  (impl.cache.getSchema tableName).isSome = true ∧
    (impl.cache.getTidByTname tableName).any (fun tid => (impl.cache.getSegId tid).isSome) = true

instance (impl : RocksDBImpl) (tableName : Bytes) : Decidable (Known impl tableName) :=
  inferInstanceAs (Decidable (_ ∧ _))

/-- The request whose caller a thread is about to notify. -/
def notifying (e : RequestExector ι) (w : Nat) : Option ι :=
  match e.executors w with
  | some ⟨.notify r, _⟩ => some r
  | _ => none

/-- **The condition on a step**: the request that is handed in names a table that is there, the write
succeeds, and a caller is not notified between its look at `done_` and its going to sleep. -/
def Succeeds (requests : ι → AddDocRequest) (e : RequestExector ι) : Step ι → Prop
  | .enqueue r => Known e.impl (requests r).tableName
  | .access _ written => written = true
  | .notify w => ∀ r ∈ e.notifying w, e.callers r ≠ .wait
  | _ => True

instance (requests : ι → AddDocRequest) (e : RequestExector ι) :
    ∀ a, Decidable (Succeeds requests e a)
  | .enqueue r => inferInstanceAs (Decidable (Known e.impl (requests r).tableName))
  | .access _ written => inferInstanceAs (Decidable (written = true))
  | .notify w => inferInstanceAs (Decidable (∀ r ∈ e.notifying w, e.callers r ≠ .wait))
  | .put | .take _ | .finish _ | .done _ | .test _ | .sleep _ | .wake _ => .isTrue trivial

/-! ## Requests that succeed -/

/-- A phase that leads to OK. -/
def Sound (impl : RocksDBImpl) (tableName : Bytes) : Phase → Prop
  | .found tid => impl.cache.getTidByTname tableName = some tid
  | .done status => status = .ok
  | _ => True

/-- The tables of one cache are there in another. -/
structure KeepsTables (impl impl' : RocksDBImpl) : Prop where
  schemas : impl'.cache.tschemamap = impl.cache.tschemamap
  names : impl'.cache.tnamemap = impl.cache.tnamemap
  segments : ∀ tid, (impl.cache.getSegId tid).isSome = true → (impl'.cache.getSegId tid).isSome = true

theorem KeepsTables.refl (impl : RocksDBImpl) : KeepsTables impl impl := ⟨rfl, rfl, fun _ => id⟩

theorem KeepsTables.known {impl impl' : RocksDBImpl} (h : KeepsTables impl impl')
    {tableName : Bytes} (hknown : Known impl tableName) : Known impl' tableName := by
  obtain ⟨hschema, hsegment⟩ := hknown
  obtain ⟨tid, htid, hsid⟩ := (Option.any_eq_true _ _).mp hsegment
  refine ⟨?_, (Option.any_eq_true _ _).mpr ⟨tid, ?_, h.segments tid hsid⟩⟩
  · rw [DBCache.getSchema, h.schemas]
    exact hschema
  · rw [DBCache.getTidByTname, h.names]
    exact htid

theorem work_keepsTables {tableName : Bytes} {docs : List Doc} {impl impl' : RocksDBImpl}
    {phase phase' : Phase} (h : work tableName docs impl phase = some (impl', phase')) :
    KeepsTables impl impl' := by
  cases phase with
  | waiting =>
    rw [work] at h
    split at h <;> cases h <;> exact .refl impl
  | found tid =>
    rw [work] at h
    split at h <;> cases h <;> exact .refl impl
  | segment tid sid =>
    cases h
    exact ⟨rfl, rfl, fun _ => id⟩
  | adding tid rest c =>
    cases rest with
    | nil =>
      cases h
      exact ⟨rfl, rfl, fun _ => id⟩
    | cons doc rest =>
      obtain ⟨c', -, heq⟩ := Option.map_eq_some_iff.mp h
      cases heq
      exact .refl impl
  | written tid c =>
    cases h
    split
    · refine ⟨rfl, rfl, fun t ht => ?_⟩
      rw [DBCache.getSegId, DBCache.updateSegMap, getElem?_insert_eq]
      split
      · rfl
      · exact ht
    · exact .refl impl
  | moved tid c =>
    cases h
    exact ⟨rfl, rfl, fun _ => id⟩
  | done status =>
    cases h
    exact .refl impl

/-- Where the write succeeds, `OnExecute` is the `AddDocs` of a worker. -/
theorem onExecute_true (request : AddDocRequest) (impl : RocksDBImpl) (phase : Phase) :
    request.onExecute true impl phase = work request.tableName request.docs impl phase := by
  unfold AddDocRequest.onExecute
  split <;> rfl

/-- **One access** leads on to OK. -/
theorem work_sound {tableName : Bytes} {docs : List Doc} {impl impl' : RocksDBImpl}
    {phase phase' : Phase} (hknown : Known impl tableName) (hsound : Sound impl tableName phase)
    (h : work tableName docs impl phase = some (impl', phase')) : Sound impl' tableName phase' := by
  obtain ⟨hschema, hsegment⟩ := hknown
  obtain ⟨tid₀, htid₀, hsid₀⟩ := (Option.any_eq_true _ _).mp hsegment
  cases phase with
  | waiting =>
    rw [work] at h
    split at h
    · next htid =>
      cases h
      exact htid
    · next hnone =>
      obtain ⟨schema, hschema⟩ := Option.isSome_iff_exists.mp hschema
      exact absurd htid₀ (hnone schema tid₀ hschema)
  | found tid =>
    cases htid₀.symm.trans hsound
    rw [work] at h
    split at h
    · next hnone =>
      rw [hnone] at hsid₀
      cases hsid₀
    · cases h
      trivial
  | segment tid sid =>
    cases h
    trivial
  | adding tid rest c =>
    cases rest with
    | nil =>
      cases h
      trivial
    | cons doc rest =>
      obtain ⟨c', -, heq⟩ := Option.map_eq_some_iff.mp h
      cases heq
      trivial
  | written tid c =>
    cases h
    trivial
  | moved tid c =>
    cases h
    exact rfl
  | done status =>
    cases h
    exact hsound

theorem KeepsTables.sound {impl impl' : RocksDBImpl} (h : KeepsTables impl impl')
    {tableName : Bytes} {phase : Phase} (hsound : Sound impl tableName phase) :
    Sound impl' tableName phase := by
  cases phase with
  | found tid =>
    rw [Sound, DBCache.getTidByTname, h.names]
    exact hsound
  | done status => exact hsound
  | _ => trivial

/-- **No request has failed**, and none will. -/
structure Faultless (requests : ι → AddDocRequest) (e : RequestExector ι) : Prop where
  handed : ∀ r ∈ e.handed.map Prod.fst, Known e.impl (requests r).tableName
  holder : ∀ r w, e.holder = some (r, w) → Known e.impl (requests r).tableName
  running : ∀ w r phase queue, e.executors w = some ⟨.execute r phase, queue⟩ →
    Sound e.impl (requests r).tableName phase
  status : ∀ r, e.status r = .ok

namespace Faultless

variable {requests : ι → AddDocRequest}

theorem start (impl : RocksDBImpl) : Faultless requests (start impl : RequestExector ι) := by
  refine ⟨?_, ?_, ?_, fun _ => rfl⟩ <;> simp [RequestExector.start]

theorem running_update (h : Faultless requests e) {w : Nat} {y : Executor ι}
    (hy : ∀ r phase, y.executeThread = .execute r phase →
      Sound e.impl (requests r).tableName phase) :
    ∀ w' r phase queue, Function.update e.executors w (some y) w' =
      some ⟨.execute r phase, queue⟩ → Sound e.impl (requests r).tableName phase := by
  intro w' r phase queue hx
  rw [Function.update_apply] at hx
  split at hx
  · cases hx
    exact hy r phase rfl
  · exact h.running w' r phase queue hx

/-- A thread goes on with its request, which leads on to OK as all others do. -/
theorem access (h : Faultless requests e) {r : ι} {w : Nat} {queue : List ι} {phase phase' : Phase}
    {impl : RocksDBImpl} (hordered : Ordered e)
    (hx : e.executors w = some ⟨.execute r phase, queue⟩)
    (hwork : work (requests r).tableName (requests r).docs e.impl phase = some (impl, phase')) :
    Faultless requests { e.put w ⟨.execute r phase', queue⟩ with impl := impl } := by
  have hkeeps := work_keepsTables hwork
  have hin : r ∈ e.handed.map Prod.fst := List.mem_map_of_mem (hordered.executing hx).1
  -- Its table was known when it was handed in, and tables stay.
  have hsound := work_sound (h.handed r hin) (h.running w r phase queue hx) hwork
  refine ⟨fun r' hr' => hkeeps.known (h.handed r' hr'),
    fun r' w' hr' => hkeeps.known (h.holder r' w' hr'), fun w' r' phase₁ queue₁ hx' => ?_, h.status⟩
  have hx' : Function.update e.executors w _ w' = some ⟨.execute r' phase₁, queue₁⟩ := hx'
  rw [Function.update_apply] at hx'
  split at hx'
  · cases hx'
    exact hsound
  · exact hkeeps.sound (h.running w' r' phase₁ queue₁ hx')

/-- **One step.** -/
theorem step [DecidableEq ι] {parallel : Nat} {a : Step ι} (h : Faultless requests e)
    (hordered : Ordered e) (hgood : Succeeds requests e a)
    (hstep : RequestExector.step requests parallel e a = some e') : Faultless requests e' := by
  cases step_moves hstep with
  | enqueueNew hfree hnew hparallel hnone =>
    refine ⟨h.handed, fun r w hr => ?_, h.running_update fun r phase hr => (by cases hr), h.status⟩
    cases hr
    exact hgood
  | enqueueOld hfree hnew hparallel hx =>
    refine ⟨h.handed, fun r w hr => ?_, h.running, h.status⟩
    cases hr
    exact hgood
  | @put r w x hholder hx =>
    refine ⟨fun r' hr' => ?_, fun r w hr => (by cases hr), h.running_update ?_, h.status⟩
    · rw [List.map_append] at hr'
      rcases List.mem_append.mp hr' with hr' | hr'
      · exact h.handed r' hr'
      · cases List.mem_singleton.mp hr'
        exact h.holder r w hholder
    · intro r' phase hthread
      exact h.running w r' phase x.executeQueue (hthread ▸ hx)
  | take hx =>
    refine ⟨h.handed, h.holder, h.running_update fun r phase hr => ?_, h.status⟩
    cases hr
    trivial
  | @access r w written queue phase phase' impl hx hphase hexecute =>
    cases hgood
    rw [onExecute_true] at hexecute
    exact h.access hordered hx hexecute
  | @finish r w queue status hx =>
    refine ⟨h.handed, h.holder, h.running_update fun r phase hr => (by cases hr), fun r' => ?_⟩
    show Function.update e.status r status r' = .ok
    rw [Function.update_apply]
    split
    · exact h.running w r (.done status) queue hx
    · exact h.status r'
  | done hx =>
    exact ⟨h.handed, h.holder, h.running_update fun r phase hr => (by cases hr), h.status⟩
  | notify hx =>
    exact ⟨h.handed, h.holder, h.running_update fun r phase hr => (by cases hr), h.status⟩
  | found => exact ⟨h.handed, h.holder, h.running, h.status⟩
  | notFound => exact ⟨h.handed, h.holder, h.running, h.status⟩
  | sleep => exact ⟨h.handed, h.holder, h.running, h.status⟩
  | wake => exact ⟨h.handed, h.holder, h.running, h.status⟩

end Faultless

/-! ## Callers that are woken -/

/-- **Nobody sleeps through the end of its request**: a caller whose request is done has returned or is
about to look, or else a thread is about to notify it. -/
def Awake (e : RequestExector ι) : Prop :=
  ∀ r, e.isDone r = true → (∃ w queue, e.executors w = some ⟨.notify r, queue⟩) ∨
    e.callers r = .test ∨ ∃ s, e.callers r = .returned s

namespace Awake

theorem start (impl : RocksDBImpl) : Awake (start impl : RequestExector ι) := by
  intro r hr
  cases hr

/-- A thread that is not about to notify goes on, and a caller too if its request is not done. -/
theorem goOn (h : Awake e) {w : Nat} {x y : Executor ι} (hx : e.executors w = some x)
    (hsame : ∀ r, x.executeThread = .notify r → y.executeThread = .notify r)
    (hexecutors : e'.executors = Function.update e.executors w (some y))
    (hdone : ∀ r, e'.isDone r = true → e.isDone r = true)
    (hcallers : ∀ r, e'.callers r = e.callers r ∨ e'.callers r = .test) : Awake e' := by
  intro r hr
  rcases h r (hdone r hr) with ⟨w', hnotify⟩ | hcaller
  · refine .inl ⟨w', ?_⟩
    rw [hexecutors]
    exact thread_update hx (hsame r) hnotify
  · rcases hcallers r with hkept | htest
    · rw [hkept]
      exact .inr hcaller
    · exact .inr (.inl htest)

variable [DecidableEq ι]

/-- A caller goes on. If its request is done, it does not go to sleep. -/
theorem call (h : Awake e) {r : ι} {caller : Caller}
    (hcaller : e.isDone r = true → (∃ w queue, e.executors w = some ⟨.notify r, queue⟩) ∨
      caller = .test ∨ ∃ s, caller = .returned s) : Awake (e.call r caller) := by
  intro r' hr'
  show _ ∨ Function.update e.callers r caller r' = .test ∨
    ∃ s, Function.update e.callers r caller r' = .returned s
  rw [Function.update_apply]
  split
  · next heq =>
    subst heq
    exact hcaller hr'
  · exact h r' hr'

/-- A thread has set `done_`, and now it is about to notify. -/
theorem done (h : Awake e) {r : ι} {w : Nat} {queue : List ι}
    (hx : e.executors w = some ⟨.finish r, queue⟩) :
    Awake { e.put w ⟨.notify r, queue⟩ with isDone := Function.update e.isDone r true } := by
  intro r' hr'
  by_cases heq : r' = r
  · subst heq
    exact .inl ⟨w, queue, Function.update_self ..⟩
  · have hr' : Function.update e.isDone r true r' = true := hr'
    rw [Function.update_of_ne heq] at hr'
    refine (h r' hr').imp_left ?_
    rintro ⟨w', hnotify⟩
    exact ⟨w', thread_update hx (fun hthread => (by cases hthread)) hnotify⟩

/-- A thread has notified a caller that was not in between. -/
theorem notify (h : Awake e) (hordered : Ordered e) {r : ι} {w : Nat} {queue : List ι}
    (hx : e.executors w = some ⟨.notify r, queue⟩) (hgood : e.callers r ≠ .wait) :
    Awake ((e.put w ⟨.take, queue⟩).call r (e.callers r).notified) := by
  intro r' hr'
  have hr' : e.isDone r' = true := hr'
  show _ ∨ Function.update e.callers r (e.callers r).notified r' = .test ∨
    ∃ s, Function.update e.callers r (e.callers r).notified r' = .returned s
  by_cases heq : r' = r
  · subst heq
    rw [Function.update_self]
    refine .inr ?_
    cases hcaller : e.callers r' with
    | absent =>
      -- What is done was handed in, so it has a caller.
      obtain ⟨⟨r₁, w₁⟩, hexecuted, rfl⟩ := List.mem_map.mp (hordered.isDone r' hr')
      exact absurd (List.mem_map_of_mem (hordered.mem_handed hexecuted)) ((hordered.absent _).mp hcaller)
    | test => exact .inl rfl
    | wait => exact absurd hcaller hgood
    | asleep => exact .inl rfl
    | returned s => exact .inr ⟨s, rfl⟩
  · rw [Function.update_of_ne heq]
    refine (h r' hr').imp_left ?_
    rintro ⟨w', hnotify⟩
    refine ⟨w', thread_update hx (fun hthread => ?_) hnotify⟩
    cases hthread
    exact absurd rfl heq

/-- **One step.** -/
theorem step {requests : ι → AddDocRequest} {parallel : Nat} {a : Step ι} (h : Awake e)
    (hordered : Ordered e) (hgood : Succeeds requests e a)
    (hstep : RequestExector.step requests parallel e a = some e') : Awake e' := by
  cases step_moves hstep with
  | enqueueNew hfree hnew hparallel hnone =>
    intro r hr
    refine (h r hr).imp_left ?_
    rintro ⟨w, queue, hnotify⟩
    have hne : w ≠ e.current := by
      rintro rfl
      cases hnone.symm.trans hnotify
    exact ⟨w, queue, (Function.update_of_ne hne _ _).trans hnotify⟩
  | enqueueOld => exact h
  | @put r w x hholder hx =>
    refine h.goOn (y := { x with executeQueue := x.executeQueue ++ [r] }) hx (fun _ => id) rfl
      (fun _ => id) fun r' => ?_
    show Function.update e.callers r .test r' = _ ∨ Function.update e.callers r .test r' = _
    rw [Function.update_apply]
    split
    · exact .inr rfl
    · exact .inl rfl
  | take hx => exact h.goOn hx (fun r hr => (by cases hr)) rfl (fun _ => id) fun _ => .inl rfl
  | access hx => exact h.goOn hx (fun r hr => (by cases hr)) rfl (fun _ => id) fun _ => .inl rfl
  | finish hx => exact h.goOn hx (fun r hr => (by cases hr)) rfl (fun _ => id) fun _ => .inl rfl
  | done hx => exact h.done hx
  | @notify r w queue hx =>
    refine h.notify hordered hx (hgood r ?_)
    simp [notifying, hx]
  | found => exact h.call fun _ => .inr (.inr ⟨_, rfl⟩)
  | notFound hcaller hdone =>
    refine h.call fun htrue => ?_
    cases hdone.symm.trans htrue
  | @sleep r hcaller =>
    refine h.call fun hdone => ?_
    rcases h r hdone with hnotify | htest | ⟨s, hreturned⟩
    · exact .inl hnotify
    · cases hcaller.symm.trans htest
    · cases hcaller.symm.trans hreturned
  | wake => exact h.call fun _ => .inr (.inl rfl)

end Awake

/-! ## Runs -/

/-- What a run keeps whose steps meet the condition. -/
structure Good (requests : ι → AddDocRequest) (parallel : Nat) (e : RequestExector ι) : Prop where
  ordered : Ordered e
  sized : Sized parallel e
  faultless : Faultless requests e
  awake : Awake e

variable {requests : ι → AddDocRequest} {parallel : Nat}

theorem Good.start (impl : RocksDBImpl) : Good requests parallel (start impl : RequestExector ι) :=
  ⟨.start impl, .start impl, .start impl, .start impl⟩

variable [DecidableEq ι]

theorem Good.step {a : Step ι} (h : Good requests parallel e) (hgood : Succeeds requests e a)
    (hstep : RequestExector.step requests parallel e a = some e') : Good requests parallel e' :=
  ⟨h.ordered.step hstep, h.sized.step hstep, h.faultless.step h.ordered hgood hstep,
    h.awake.step h.ordered hgood hstep⟩

/-- At rest, a request that was handed in has been executed, and its caller knows. -/
theorem Good.finishes (h : Good requests parallel e) (hrest : AtRest requests parallel e)
    (halive : ∀ w, ¬Aborts requests e w) {r : ι} (hr : r ∈ e.handed.map Prod.fst) :
    r ∈ e.executed.map Prod.fst ∧ e.callers r = .returned (e.status r) := by
  have hdone := hrest.isDone halive h.ordered hr
  refine ⟨h.ordered.isDone r hdone, ?_⟩
  rcases h.awake r hdone with ⟨w, queue, hnotify⟩ | htest | ⟨s, hreturned⟩
  · cases hrest.idle halive hnotify
  · exact absurd htest (hrest.caller r).1
  · rw [hreturned, (h.ordered.returned r s hreturned).2, h.faultless.status r]
    rfl

theorem Good.reports (h : Good requests parallel e) : Reports requests parallel e where
  inOrder := h.ordered.inOrder
  once := h.ordered.once
  status := by
    intro r s hreturned
    obtain ⟨hdone, rfl⟩ := h.ordered.returned r s hreturned
    exact ⟨h.ordered.isDone r hdone, (h.faultless.status r).symm⟩
  ends := fun _ _ => length_run_le_due h.ordered h.sized
  finishes := fun hrest halive => ⟨hrest.holder halive h.sized, fun _ => h.finishes hrest halive⟩

/-- **Requests report their outcome in every run** in which each names a table that is there, no
write fails, and no notification comes between a caller's look at `done_` and its sleep. -/
theorem run_reports {impl : RocksDBImpl} {steps : List (Step ι)}
    (hgood : Along (step requests parallel) (Succeeds requests) (start impl) steps)
    (hrun : runSteps (step requests parallel) (start impl) steps = some e) :
    Reports requests parallel e :=
  (hgood.runSteps_inv (fun _ _ _ h hgood hstep => h.step hgood hstep) (.start impl) hrun :
    Good requests parallel e).reports

/-! ## Runs of two and of one -/

/-- A request with a document each, for a table of pairs. -/
def pairAddDocs (r : Bool) : AddDocRequest := ⟨pairs, pairRequests r⟩

/-- Two requests at two executors. One caller sleeps until it is notified, the other finds its request
done. -/
def twoRequests : List (Step Bool) :=
  [.enqueue false, .put, .test false, .enqueue true, .put, .sleep false, .take 0, .take 1,
    .access 0 true, .access 1 true, .access 1 true, .access 0 true, .access 0 true, .access 1 true,
    .access 1 true, .access 0 true, .access 0 true, .access 0 true, .access 0 true, .finish 0,
    .access 1 true, .access 1 true, .access 1 true, .done 0, .notify 0, .finish 1, .done 1,
    .test false, .test true, .notify 1]

theorem twoRequests_reports : ∃ e,
    runSteps (step pairAddDocs 2) (start pairImpl) twoRequests = some e ∧
    AtRest pairAddDocs 2 e ∧ Reports pairAddDocs 2 e ∧ e.executed = [(false, 0), (true, 1)] ∧
    ∀ r, e.callers r = .returned .ok := by
  have hgood : Along (step pairAddDocs 2) (Succeeds pairAddDocs) (start pairImpl) twoRequests := by
    decide +kernel
  have hend : ((runSteps (step pairAddDocs 2) (start pairImpl) twoRequests).map fun e =>
      (e.holder.isNone && (e.executors 0).all Executor.isIdle && (e.executors 1).all Executor.isIdle,
        e.executed, e.callers false, e.callers true)) =
      some (true, [(false, 0), (true, 1)], .returned .ok, .returned .ok) := by
    decide +kernel
  obtain ⟨e, hrun, heq⟩ := Option.map_eq_some_iff.mp hend
  simp only [Prod.mk.injEq, Bool.and_eq_true, Option.isNone_iff_eq_none] at heq
  obtain ⟨⟨⟨hholder, hidle₀⟩, hidle₁⟩, hexecuted, hfalse, htrue⟩ := heq
  have hreturned : ∀ r, e.callers r = .returned .ok := by
    intro r
    cases r with
    | false => exact hfalse
    | true => exact htrue
  have hidle : ∀ w < 2, (e.executors w).all Executor.isIdle = true := by
    intro w hw
    obtain rfl | rfl : w = 0 ∨ w = 1 := by omega
    · exact hidle₀
    · exact hidle₁
  have hrest : AtRest pairAddDocs 2 e :=
    atRest_of_idle (.run (.start _) hrun) hholder hidle fun r => by simp [hreturned r]
  exact ⟨e, hrun, hrest, run_reports hgood hrun, hexecuted, hreturned⟩

/-- A request for a table that does not exist. -/
def unknownRequest : List (Step Unit) :=
  [.enqueue (), .put, .test (), .sleep (), .take 0, .access 0 true, .finish 0, .done 0, .notify 0,
    .test ()]

/-- A caller that is notified when it has looked and is not asleep yet. -/
def lostWakeup : List (Step Unit) :=
  [.enqueue (), .put, .test (), .take 0, .access 0 true, .access 0 true, .access 0 true,
    .access 0 true, .access 0 true, .access 0 true, .access 0 true, .finish 0, .done 0, .notify 0,
    .sleep ()]

/-- The table is not found, and OK is returned. And nobody wakes a caller that has missed its
notification, though its request has succeeded. -/
theorem not_reports_unknown :
    (∃ e, runSteps (step (fun _ => ⟨pairs, []⟩) 16) (start opened) unknownRequest = some e ∧
      e.status () = .notFound ∧ e.callers () = .returned .ok ∧
      ¬Reports (fun _ => ⟨pairs, []⟩) 16 e) ∧
    ∃ e, runSteps (step (fun _ => pairAddDocs false) 1) (start pairImpl) lostWakeup = some e ∧
      e.executed = [((), 0)] ∧ e.status () = .ok ∧ e.callers () = .asleep ∧
      AtRest (fun _ => pairAddDocs false) 1 e ∧ ¬Reports (fun _ => pairAddDocs false) 1 e := by
  constructor
  · have hend : ((runSteps (step (fun _ => ⟨pairs, []⟩) 16) (start opened) unknownRequest).map
        fun e => (e.status (), e.callers ())) = some (.notFound, .returned .ok) := by
      decide +kernel
    obtain ⟨e, hrun, heq⟩ := Option.map_eq_some_iff.mp hend
    obtain ⟨hstatus, hreturned⟩ := Prod.mk.injEq .. ▸ heq
    refine ⟨e, hrun, hstatus, hreturned, fun h => ?_⟩
    have hsame := (h.status () .ok hreturned).2
    rw [hstatus] at hsame
    cases hsame
  · have hend : ((runSteps (step (fun _ => pairAddDocs false) 1) (start pairImpl) lostWakeup).map
        fun e => (e.holder.isNone && (e.executors 0).all Executor.isIdle, e.executed, e.status (),
          e.callers ())) = some (true, [((), 0)], .ok, .asleep) := by
      decide +kernel
    obtain ⟨e, hrun, heq⟩ := Option.map_eq_some_iff.mp hend
    simp only [Prod.mk.injEq, Bool.and_eq_true, Option.isNone_iff_eq_none] at heq
    obtain ⟨⟨hholder, hidle⟩, hexecuted, hstatus, hasleep⟩ := heq
    have hordered : Ordered e := runSteps_inv (fun _ _ _ hs hstep => hs.step hstep) (.start _) hrun
    have hsized : Sized 1 e := .run (.start _) hrun
    have hidle : ∀ w < 1, (e.executors w).all Executor.isIdle = true := by
      intro w hw
      obtain rfl : w = 0 := by omega
      exact hidle
    have hrest : AtRest (fun _ => pairAddDocs false) 1 e :=
      atRest_of_idle hsized hholder hidle fun r => by simp [hasleep]
    refine ⟨e, hrun, hexecuted, hstatus, hasleep, hrest, fun h => ?_⟩
    have halive : ∀ w, ¬Aborts (fun _ => pairAddDocs false) e w := by
      rintro w ⟨r, phase, queue, hx, -⟩
      have hall := hidle w (hsized.number w _ hx)
      rw [hx] at hall
      cases hall
    have hhanded : () ∈ e.handed.map Prod.fst := hordered.mem_of_caller (by simp [hasleep])
    have hreturned := ((h.finishes hrest halive).2 () hhanded).2
    rw [hasleep] at hreturned
    cases hreturned

end RequestExector

end CxxLab.RocksdbLab
