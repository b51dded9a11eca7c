import CxxLab.CkLab.Pipe

/-!
# `ck_lab/Pipeline.cpp` — pipelines, and what the guards let through

A `Pipeline` owns a `Pipe`. `AddTransform` and `MergePipelineBefore` are meant for a pipeline that
has one and still has outputs, and `AddSource` for a processor with one output and no input; each
of the three checks that with `STATUS_CHECK`.

The macro does not mention its argument. `STATUS_CHECK(func)` looks at a local `status`, which is
OK wherever the macro stands, so the check is not made, and `Pipeline::AddTransform` then drops
what `Pipe::AddTransform` returns. `statusCheck` below is the macro.

Pipelines are numbered, since the one that is merged is reached through a `unique_ptr` that may
be null or own the very pipeline it is merged into. A call through a null pointer or past the end
of a list is undefined, and nothing is promised of it; one that runs into an `assert` does not
return.

`guards_iff` says of each of the three operations for which calls its guard is kept.
-/

set_option autoImplicit false

namespace CxxLab.CkLab

open CxxLab.Lib Exec

/-! ## Pipelines -/

/-- `StatusCode`, the codes of pipelines. -/
inductive PipelineCode where
  | pipelineInitialized
  | pipeEmpty
  | pipelineNotInitialized
  | pipelineCompleted
  | pipelineMergeError
  deriving DecidableEq, Repr

/-- Every way a call on a pipeline can end other than with `Status::OK()`. -/
inductive PipelineFail where
  | status (code : PipelineCode) (msg : String)
  | assertion
  | undefined
  deriving DecidableEq, Repr

/-- `Pipeline`, less `max_threads_`. -/
structure Pipeline where
  pipe : Option Pipe

namespace Pipeline

/-- `Pipeline::IsInitialized`. -/
def isInitialized (l : Pipeline) : Bool :=
  match l.pipe with
  | none => false
  | some p => !p.empty

/-- `Pipeline::IsCompleted`. -/
def isCompleted (l : Pipeline) : Bool :=
  match l.pipe with
  | none => false
  | some p => !p.empty && p.outputPorts.length == 0

end Pipeline

/-- The processors and every pipeline over them, by number. -/
structure Pipelines where
  heap : Heap
  pipelines : Nat → Pipeline

namespace Pipelines

def setPipe (w : Pipelines) (i : Nat) (pipe : Option Pipe) : Pipelines :=
  { w with pipelines := Function.update w.pipelines i ⟨pipe⟩ }

end Pipelines

abbrev PipelineM := Exec PipelineFail Pipelines

namespace Pipeline

/-- `Pipeline::Initialize`. -/
def initializeWith (i : Nat) (pipe : Option Pipe) : PipelineM Unit := do
  let w ← get
  if (w.pipelines i).isInitialized then
    throw (.status .pipelineInitialized "Initialized")
  match pipe with
  | none => throw (.status .pipeEmpty "Empty")
  | some p =>
    if p.empty then throw (.status .pipeEmpty "Empty")
    modify fun w => w.setPipe i (some p)

/-- `Pipeline::DetachPipe`. -/
def detachPipe (i : Nat) : PipelineM (Option Pipe) := do
  let w ← get
  modify fun w => w.setPipe i none
  return (w.pipelines i).pipe

/-- `Pipeline::MakeSureInitilizedAndNotCompleted`. -/
def makeSureInitilizedAndNotCompleted (i : Nat) : PipelineM Unit := do
  let w ← get
  if !(w.pipelines i).isInitialized then
    throw (.status .pipelineNotInitialized "NotInitialized")
  if (w.pipelines i).isCompleted then
    throw (.status .pipelineCompleted "AlreadyCompleted")

/-- `pipe_->op();` as a statement: the status it returns is dropped. -/
def callPipe (i : Nat) (op : PipeM Unit) : PipelineM Unit := do
  let w ← get
  match (w.pipelines i).pipe with
  | none => throw .undefined
  | some p =>
    let (r, s) := exec op ⟨w.heap, p⟩
    modify fun w => { w with heap := s.heap }.setPipe i (some s.pipe)
    match r with
    | .ok _ | .error (.status _ _) => pure ()
    | .error .assertion => throw .assertion
    | .error .undefined => throw .undefined

/-- `Pipeline::AddTransform`. -/
def addTransform (i q : Nat) : PipelineM Unit := do
  let status : PipelineM Unit := pure ()
  statusCheck status (makeSureInitilizedAndNotCompleted i)
  callPipe i (CkLab.addTransform q)
  status

/-- `Pipeline::MergePipelineBefore`; `other` is what the `unique_ptr` owns. -/
def mergePipelineBefore (i : Nat) (other : Option Nat) : PipelineM Unit := do
  let status : PipelineM Unit := pure ()
  statusCheck status (makeSureInitilizedAndNotCompleted i)
  let pipe ← detachPipe i
  match other with
  | none => throw .undefined
  | some j =>
    let pipe' ← detachPipe j
    match pipe, pipe' with
    | some p, some p' =>
      match mergePipes [p, p'] with
      | none => throw .undefined
      | some none => throw (.status .pipelineMergeError "MergeError")
      | some (some newPipe) =>
        modify fun w => w.setPipe i (some newPipe)
        status
    | _, _ => throw .undefined

end Pipeline

/-! ## What the guards are for -/

/-- The guard of `Pipe::AddSource`: only a source that nothing is connected to gets in, and a
refused one changes nothing. -/
structure AddSourceGuarded (s : PipeState) (q : Nat) : Prop where
  defined : (exec (addSource q) s).1 ≠ .error .undefined
  accepts : ∀ s', exec (addSource q) s = (.ok (), s') →
    (s.heap.procs q).inputs = [] ∧ (s.heap.procs q).outputs.length = 1 ∧ s.heap.OutputOpen ⟨q, 0⟩
  unchanged : ∀ code msg s', exec (addSource q) s = (.error (.status code msg), s') → s' = s

/-- The transform is the last processor of the pipe, with what were the open outputs joined to
its inputs, in order. -/
def Attached (w w' : Pipelines) (i q : Nat) : Prop :=
  ∃ p p', (w.pipelines i).pipe = some p ∧ (w'.pipelines i).pipe = some p' ∧
    p'.processors = p.processors ++ [q] ∧
    ∀ k r, p.outputPorts[k]? = some r → ∃ st, w'.heap.output r = some ⟨some st, some ⟨q, k⟩⟩ ∧
      w'.heap.input ⟨q, k⟩ = some ⟨some st, some r⟩

/-- The guard of `Pipeline::AddTransform`. -/
structure AddTransformGuarded (w : Pipelines) (i q : Nat) : Prop where
  defined : (exec (Pipeline.addTransform i q) w).1 ≠ .error .undefined
  attached : (exec (Pipeline.addTransform i q) w).1 = .ok () ↔
    Attached w (exec (Pipeline.addTransform i q) w).2 i q
  refuses : (w.pipelines i).isInitialized = false ∨ (w.pipelines i).isCompleted = true →
    ∃ code msg, (exec (Pipeline.addTransform i q) w).1 = .error (.status code msg)
  unchanged : ∀ code msg w', exec (Pipeline.addTransform i q) w = (.error (.status code msg), w') →
    w' = w

/-- The guard of `Pipeline::MergePipelineBefore`. -/
structure MergeGuarded (w : Pipelines) (i : Nat) (other : Option Nat) : Prop where
  defined : (exec (Pipeline.mergePipelineBefore i other) w).1 ≠ .error .undefined
  refuses : (w.pipelines i).isInitialized = false ∨ (w.pipelines i).isCompleted = true →
    ∃ code msg, (exec (Pipeline.mergePipelineBefore i other) w).1 = .error (.status code msg)
  unchanged : ∀ code msg w',
    exec (Pipeline.mergePipelineBefore i other) w = (.error (.status code msg), w') → w' = w

/-- `output_ports_` points at ports there are. -/
def Pipe.PortsExist (h : Heap) (p : Pipe) : Prop := ∀ r ∈ p.outputPorts, (h.output r).isSome

/-- The pointers of every pipe are good. -/
def Pipelines.Valid (w : Pipelines) : Prop :=
  ∀ i p, (w.pipelines i).pipe = some p → p.PortsExist w.heap

/-! ## Sources -/

theorem exec_addSource (q : Nat) (s : PipeState) : exec (addSource q) s =
    match s.heap.output ⟨q, 0⟩ with
    | none => (.error .undefined, s)
    | some port =>
      if port.state.isSome then (.error (.status .pipeConnectedSource "Source connected"), s)
      else (.ok (), { s with pipe :=
        { processors := s.pipe.processors ++ [q]
          outputPorts := s.pipe.outputPorts ++ [⟨q, 0⟩]
          maxParallelStreams :=
            max s.pipe.maxParallelStreams (s.pipe.outputPorts.length + 1) } }) := by
  rw [addSource, exec_bind_ok (exec_get s)]
  cases s.heap.output ⟨q, 0⟩ with
  | none => rfl
  | some port => cases hstate : port.state <;> simp [hstate]

/-- `CheckSource` is not called, so what keeps a processor out is only that its first output is
connected. -/
theorem addSourceGuarded_iff (s : PipeState) (q : Nat) : AddSourceGuarded s q ↔
    ∃ port, s.heap.output ⟨q, 0⟩ = some port ∧ (port.state ≠ none ∨
      (s.heap.procs q).inputs = [] ∧ (s.heap.procs q).outputs.length = 1) := by
  have hrun := exec_addSource q s
  cases hport : s.heap.output ⟨q, 0⟩ with
  | none =>
    simp only [hport] at hrun
    constructor
    · intro h
      exact absurd (by rw [hrun]) h.defined
    · rintro ⟨port, hsome, -⟩
      cases hsome
  | some port =>
    simp only [hport] at hrun
    cases hstate : port.state with
    | some st =>
      simp only [hstate, Option.isSome_some, if_true] at hrun
      refine iff_of_true ⟨by rw [hrun]; simp, ?_, ?_⟩ ⟨port, rfl, .inl (by simp [hstate])⟩
      · intro s' h
        rw [hrun] at h
        cases h
      · intro code msg s' h
        rw [hrun] at h
        exact (Prod.mk.inj h).2.symm
    | none =>
      simp only [hstate, Option.isSome_none, Bool.false_eq_true, if_false] at hrun
      constructor
      · intro h
        obtain ⟨hin, hout, -⟩ := h.accepts _ hrun
        exact ⟨port, rfl, .inr ⟨hin, hout⟩⟩
      · rintro ⟨port', hsome, hne | ⟨hin, hout⟩⟩
        · cases hsome
          exact absurd hstate hne
        · refine ⟨by rw [hrun]; simp, fun s' _ => ⟨hin, hout, port, hport, hstate⟩, ?_⟩
          intro code msg s' h
          rw [hrun] at h
          cases h

/-! ## Transforms -/

/-- The three checks of `Pipe::AddTransform`. -/
def Accepts (s : PipeState) (q : Nat) : Prop :=
  s.pipe.outputPorts ≠ [] ∧ (s.heap.procs q).inputs.length = s.pipe.outputPorts.length ∧
    (s.heap.procs q).outputs ≠ []

/-- What the pairing loop leaves when no `assert` fires in it: every pair joined, and every
connection there was. -/
structure Joined (h h' : Heap) (q : Nat) (outs : List PortRef) (i : Nat) : Prop where
  paired : ∀ k r, outs[k]? = some r → ∃ st, h'.output r = some ⟨some st, some ⟨q, i + k⟩⟩ ∧
    h'.input ⟨q, i + k⟩ = some ⟨some st, some r⟩
  output_connected : ∀ r port, h.output r = some port → port.state ≠ none → h'.output r = some port
  input_connected : ∀ r port, h.input r = some port → port.state ≠ none → h'.input r = some port
  output_isSome : ∀ r, (h'.output r).isSome = (h.output r).isSome

/-- `Connect` of two ports that exist joins them or does not return. -/
theorem connect_cases {s : PipeState} {out inp : PortRef} (hout : (s.heap.output out).isSome)
    (hinp : (s.heap.input inp).isSome) :
    exec (connect out inp) s = (.error .assertion, s) ∨
      s.heap.OutputOpen out ∧ s.heap.InputOpen inp := by
  obtain ⟨o, ho⟩ := Option.isSome_iff_exists.mp hout
  obtain ⟨i, hi⟩ := Option.isSome_iff_exists.mp hinp
  by_cases hopen : i.state = none ∧ o.state = none
  · exact .inr ⟨⟨o, ho, hopen.2⟩, ⟨i, hi, hopen.1⟩⟩
  · left
    simp only [connect, exec_bind, exec_get, ho, hi]
    rw [if_neg (by simpa using hopen)]
    rfl

theorem isSome_output_join {h : Heap} {out inp : PortRef} (hout : (h.output out).isSome)
    (r : PortRef) : ((h.join out inp).output r).isSome = (h.output r).isSome := by
  obtain ⟨o, ho⟩ := Option.isSome_iff_exists.mp hout
  rw [Heap.output_join]
  split
  · rename_i heq
    rw [heq, ho]
    rfl
  · rfl

/-- A first pair and the pairs of the rest. The rest of the loop leaves the first pair alone, for
it is connected by then. -/
theorem Joined.cons {h h' : Heap} {q i : Nat} {out : PortRef} {outs : List PortRef}
    (hout : h.OutputOpen out) (hinp : h.InputOpen ⟨q, i⟩)
    (hj : Joined (h.join out ⟨q, i⟩) h' q outs (i + 1)) : Joined h h' q (out :: outs) i := by
  obtain ⟨o, ho, hos⟩ := hout
  obtain ⟨inp, hi, his⟩ := hinp
  refine ⟨?_, ?_, ?_, ?_⟩
  · intro k r hr
    rcases k with _ | k
    · simp only [List.getElem?_cons_zero, Option.some.injEq] at hr
      subst hr
      refine ⟨h.nextState, hj.output_connected _ _ ?_ (by simp),
        hj.input_connected _ _ ?_ (by simp)⟩
      · rw [Heap.output_join, if_pos rfl, ho]
        rfl
      · rw [Nat.add_zero, Heap.input_join, if_pos rfl, hi]
        rfl
    · rw [List.getElem?_cons_succ] at hr
      have := hj.paired k r hr
      rwa [Nat.add_assoc, Nat.add_comm 1 k] at this
  · intro r port hport hne
    refine hj.output_connected r port ?_ hne
    rw [Heap.output_join, if_neg, hport]
    rintro rfl
    rw [ho] at hport
    cases hport
    exact hne hos
  · intro r port hport hne
    refine hj.input_connected r port ?_ hne
    rw [Heap.input_join, if_neg, hport]
    rintro rfl
    rw [hi] at hport
    cases hport
    exact hne his
  · intro r
    rw [hj.output_isSome, isSome_output_join (by rw [ho]; rfl)]

/-- The pairing loop over ports that exist, with no assumption on what is connected. The induction
is on the outputs still to be paired. -/
theorem connectAll_cases (q : Nat) : ∀ (outs : List PortRef) (i : Nat) (s : PipeState),
    (∀ r ∈ outs, (s.heap.output r).isSome) →
    (∀ k, k < outs.length → (s.heap.input ⟨q, i + k⟩).isSome) →
    (∃ s', exec (connectAll q outs i) s = (.error .assertion, s') ∧ s'.pipe = s.pipe) ∨
      ∃ h', exec (connectAll q outs i) s = (.ok (), { s with heap := h' }) ∧
        Joined s.heap h' q outs i := by
  intro outs
  induction outs with
  | nil =>
    intro i s _ _
    exact .inr ⟨s.heap, rfl, by simp, fun _ _ h _ => h, fun _ _ h _ => h, fun _ => rfl⟩
  | cons out outs ih =>
    intro i s houts hins
    rcases connect_cases (houts out (by simp)) (hins 0 (by simp)) with hstop | ⟨hopen, hin⟩
    · refine .inl ⟨s, ?_, rfl⟩
      rw [connectAll, exec_bind, ← Nat.add_zero i, hstop]
    rw [Nat.add_zero] at hin
    have houts' : ∀ r ∈ outs, ((s.heap.join out ⟨q, i⟩).output r).isSome := by
      intro r hr
      rw [isSome_output_join (houts out (by simp))]
      exact houts r (by simp [hr])
    have hins' : ∀ k, k < outs.length →
        ((s.heap.join out ⟨q, i⟩).input ⟨q, i + 1 + k⟩).isSome := by
      intro k hk
      rw [Heap.input_join, if_neg (by simp; omega), Nat.add_assoc, Nat.add_comm 1 k]
      exact hins (k + 1) (by simpa using hk)
    rw [connectAll, exec_bind_ok (exec_connect hopen hin)]
    rcases ih (i + 1) { s with heap := s.heap.join out ⟨q, i⟩ } houts' hins' with
      ⟨s', hrun, hpipe⟩ | ⟨h', hrun, hj⟩
    · exact .inl ⟨s', hrun, hpipe⟩
    · exact .inr ⟨h', hrun, hj.cons hopen hin⟩

/-- **`Pipe::AddTransform`, whatever the pipe**: refused with nothing changed, stopped by an
`assert`, or attached. -/
theorem addTransform_cases (q : Nat) (s : PipeState) (hports : s.pipe.PortsExist s.heap) :
    (¬ Accepts s q ∧ ∃ code msg, exec (addTransform q) s = (.error (.status code msg), s)) ∨
    (Accepts s q ∧ ∃ s', exec (addTransform q) s = (.error .assertion, s') ∧ s'.pipe = s.pipe) ∨
    (Accepts s q ∧ ∃ h', exec (addTransform q) s = (.ok (), attach q { s with heap := h' }) ∧
      Joined s.heap h' q s.pipe.outputPorts 0) := by
  have hrun := exec_addTransform q s
  by_cases h₁ : s.pipe.outputPorts.length = 0
  · rw [if_pos h₁] at hrun
    refine .inl ⟨fun hacc => hacc.1 ?_, _, _, hrun⟩
    exact List.length_eq_zero_iff.mp h₁
  by_cases h₂ : (s.heap.procs q).inputs.length = s.pipe.outputPorts.length
  · by_cases h₃ : (s.heap.procs q).outputs.length = 0
    · rw [if_neg h₁, if_neg (by simpa using h₂), if_pos h₃] at hrun
      refine .inl ⟨fun hacc => hacc.2.2 ?_, _, _, hrun⟩
      exact List.length_eq_zero_iff.mp h₃
    · rw [if_neg h₁, if_neg (by simpa using h₂), if_neg h₃] at hrun
      have hacc : Accepts s q :=
        ⟨fun h => h₁ (by rw [h]; rfl), h₂, fun h => h₃ (by rw [h]; rfl)⟩
      have hins : ∀ k, k < s.pipe.outputPorts.length → (s.heap.input ⟨q, 0 + k⟩).isSome := by
        intro k hk
        rw [Heap.input, Nat.zero_add, List.getElem?_eq_getElem (by dsimp only; omega)]
        rfl
      rcases connectAll_cases q s.pipe.outputPorts 0 s hports hins with
        ⟨s', hloop, hpipe⟩ | ⟨h', hloop, hj⟩
      · refine .inr (.inl ⟨hacc, s', ?_, hpipe⟩)
        rw [hrun, exec_bind, hloop]
      · refine .inr (.inr ⟨hacc, h', ?_, hj⟩)
        rw [hrun, exec_bind_ok hloop]
        rfl
  · rw [if_neg h₁, if_pos h₂] at hrun
    exact .inl ⟨fun hacc => h₂ hacc.2.1, _, _, hrun⟩

/-! ## Pipelines -/

/-- What `Pipeline::AddTransform` makes of the outcome of `Pipe::AddTransform`. -/
def dropStatus : Except Fail Unit → Except PipelineFail Unit
  | .ok _ | .error (.status _ _) => .ok ()
  | .error .assertion => .error .assertion
  | .error .undefined => .error .undefined

namespace Pipelines

variable {w : Pipelines} {i j q : Nat} {p p' : Pipe}

@[simp] theorem setPipe_heap (pipe : Option Pipe) : (w.setPipe i pipe).heap = w.heap := rfl

@[simp] theorem setPipe_self (pipe : Option Pipe) : (w.setPipe i pipe).pipelines i = ⟨pipe⟩ :=
  Function.update_self ..

theorem setPipe_other (hne : j ≠ i) (pipe : Option Pipe) :
    (w.setPipe i pipe).pipelines j = w.pipelines j :=
  Function.update_of_ne hne ..

theorem isInitialized_eq_false (hp : (w.pipelines i).pipe = some p) :
    (w.pipelines i).isInitialized = false ↔ p.processors = [] := by
  simp [Pipeline.isInitialized, hp, Pipe.empty]

theorem isCompleted_eq_true (hp : (w.pipelines i).pipe = some p) :
    (w.pipelines i).isCompleted = true ↔ p.processors ≠ [] ∧ p.outputPorts = [] := by
  simp [Pipeline.isCompleted, hp, Pipe.empty]

theorem exec_addTransform_null (hp : (w.pipelines i).pipe = none) :
    exec (Pipeline.addTransform i q) w = (.error .undefined, w) := by
  simp [Pipeline.addTransform, statusCheck, Pipeline.callPipe, exec_bind, hp]

theorem exec_addTransform_pipe (hp : (w.pipelines i).pipe = some p) {r : Except Fail Unit}
    {s : PipeState} (hrun : exec (CkLab.addTransform q) ⟨w.heap, p⟩ = (r, s)) :
    exec (Pipeline.addTransform i q) w =
      (dropStatus r, { w with heap := s.heap }.setPipe i (some s.pipe)) := by
  simp only [Pipeline.addTransform, statusCheck, Pipeline.callPipe, exec_bind, exec_pure, exec_get,
    hp, hrun, exec_modify]
  rcases r with e | _
  · cases e <;> rfl
  · rfl

/-- A pipeline that got past a call that should refuse it is one that the checks let in. -/
theorem AddTransformGuarded.processors_ne (h : AddTransformGuarded w i q)
    (hp : (w.pipelines i).pipe = some p)
    (hstatus : ∀ code msg, (exec (Pipeline.addTransform i q) w).1 ≠ .error (.status code msg)) :
    p.processors ≠ [] := by
  intro hempty
  obtain ⟨code, msg, hrun⟩ := h.refuses (.inl ((isInitialized_eq_false hp).mpr hempty))
  exact hstatus code msg hrun

/-- No check has anything to say of an initialised pipeline with an output. -/
theorem not_refused (hp : (w.pipelines i).pipe = some p) (hprocs : p.processors ≠ [])
    (hports : p.outputPorts ≠ []) :
    ¬ ((w.pipelines i).isInitialized = false ∨ (w.pipelines i).isCompleted = true) := by
  rintro (hinit | hdone)
  · exact hprocs ((isInitialized_eq_false hp).mp hinit)
  · exact hports ((isCompleted_eq_true hp).mp hdone).2

/-- Where no status comes back, the guard is kept by a pipeline that is initialised. -/
theorem addTransformGuarded_of_accepts (hp : (w.pipelines i).pipe = some p)
    (hacc : Accepts ⟨w.heap, p⟩ q)
    (hdefined : (exec (Pipeline.addTransform i q) w).1 ≠ .error .undefined)
    (hstatus : ∀ code msg, (exec (Pipeline.addTransform i q) w).1 ≠ .error (.status code msg))
    (hattached : (exec (Pipeline.addTransform i q) w).1 = .ok () ↔
      Attached w (exec (Pipeline.addTransform i q) w).2 i q) :
    AddTransformGuarded w i q ↔
      ∃ p, (w.pipelines i).pipe = some p ∧ p.processors ≠ [] ∧ Accepts ⟨w.heap, p⟩ q := by
  constructor
  · intro h
    exact ⟨p, hp, AddTransformGuarded.processors_ne h hp hstatus, hacc⟩
  · rintro ⟨p', hsome, hne, -⟩
    cases hp.symm.trans hsome
    exact ⟨hdefined, hattached, fun h => absurd h (not_refused hp hne hacc.1),
      fun code msg w' h => absurd (congrArg Prod.fst h) (hstatus code msg)⟩

/-- Both checks of the pipeline go by, and so does every refusal of the pipe: the guard is kept
when neither would have refused. -/
theorem addTransformGuarded_iff (hvalid : w.Valid) : AddTransformGuarded w i q ↔
    ∃ p, (w.pipelines i).pipe = some p ∧ p.processors ≠ [] ∧ Accepts ⟨w.heap, p⟩ q := by
  rcases hp : (w.pipelines i).pipe with _ | p
  · constructor
    · intro h
      exact absurd (by rw [exec_addTransform_null hp]) h.defined
    · rintro ⟨p, hsome, -⟩
      cases hsome
  rw [← hp]
  rcases addTransform_cases q ⟨w.heap, p⟩ (hvalid i p hp) with
    ⟨hnot, code, msg, hrun⟩ | ⟨hacc, s', hrun, hpipe⟩ | ⟨hacc, h', hrun, hj⟩
  · -- Refused by the pipe, and OK from the pipeline.
    have hexec := exec_addTransform_pipe hp hrun
    constructor
    · intro h
      obtain ⟨p₁, p₂, hp₁, hp₂, hprocs, -⟩ := h.attached.mp (by rw [hexec]; rfl)
      rw [hp] at hp₁
      rw [hexec, setPipe_self] at hp₂
      cases hp₁
      cases hp₂
      simp at hprocs
    · rintro ⟨p', hsome, -, hacc⟩
      cases hp.symm.trans hsome
      exact absurd hacc hnot
  · -- An `assert` fires: the call does not return.
    have hexec := exec_addTransform_pipe hp hrun
    refine addTransformGuarded_of_accepts hp hacc (by simp [hexec, dropStatus])
      (by simp [hexec, dropStatus]) (iff_of_false (by simp [hexec, dropStatus]) ?_)
    rintro ⟨p₁, p₂, hp₁, hp₂, hprocs, -⟩
    rw [hp] at hp₁
    rw [hexec, setPipe_self] at hp₂
    cases hp₁
    cases hp₂
    rw [hpipe] at hprocs
    simp at hprocs
  · have hexec := exec_addTransform_pipe hp hrun
    refine addTransformGuarded_of_accepts hp hacc (by simp [hexec, dropStatus])
      (by simp [hexec, dropStatus]) ?_
    rw [hexec]
    refine iff_of_true rfl ⟨p, _, hp, by rw [setPipe_self], rfl, ?_⟩
    intro k r hr
    have := hj.paired k r hr
    rwa [Nat.zero_add] at this

/-! ## Merging pipelines -/

/-- Two pipes: an empty first one hides the second from the loop, and an empty second one is
erased under it. -/
theorem mergePipes_two (p p' : Pipe) : mergePipes [p, p'] =
    if p.processors = [] then some (some p')
    else if p'.processors = [] then none
    else some (some (concatPipes [p, p'])) := by
  by_cases hp : p.processors = []
  · simp [mergePipes, removeEmptyPipes, Pipe.empty, hp]
  · by_cases hp' : p'.processors = []
    · simp [mergePipes, removeEmptyPipes, Pipe.empty, hp, hp']
    · simp [mergePipes, removeEmptyPipes, Pipe.empty, hp, hp']

/-- What a call of `MergePipelineBefore` needs of its pointers. -/
structure Mergeable (w : Pipelines) (i : Nat) (other : Option Nat) (j : Nat) (p p' : Pipe) :
    Prop where
  other : other = some j
  ne : j ≠ i
  pipe : (w.pipelines i).pipe = some p
  otherPipe : (w.pipelines j).pipe = some p'
  defined : p.processors ≠ [] → p'.processors ≠ []

/-- The pipe the merge makes. -/
def mergedPipe (p p' : Pipe) : Pipe := if p.processors = [] then p' else concatPipes [p, p']

theorem exec_merge {other : Option Nat} (h : Mergeable w i other j p p') :
    exec (Pipeline.mergePipelineBefore i other) w =
      (.ok (), ((w.setPipe i none).setPipe j none).setPipe i (some (mergedPipe p p'))) := by
  have hmerge : mergePipes [p, p'] = some (some (mergedPipe p p')) := by
    rw [mergePipes_two, mergedPipe]
    split
    · rfl
    · rename_i hne
      rw [if_neg (h.defined hne)]
  obtain rfl := h.other
  simp [Pipeline.mergePipelineBefore, statusCheck, Pipeline.detachPipe, exec_bind, h.pipe,
    setPipe_other h.ne, h.otherPipe, hmerge]

/-- Anything else is undefined, the merge of a pipeline into itself too. -/
theorem exec_merge_undefined {other : Option Nat} (h : ∀ j p p', ¬ Mergeable w i other j p p') :
    (exec (Pipeline.mergePipelineBefore i other) w).1 = .error .undefined := by
  cases other with
  | none => simp [Pipeline.mergePipelineBefore, statusCheck, Pipeline.detachPipe, exec_bind]
  | some j =>
    simp only [Pipeline.mergePipelineBefore, statusCheck, Pipeline.detachPipe, exec_bind, exec_pure,
      exec_get, exec_modify]
    cases hp : (w.pipelines i).pipe with
    | none => rfl
    | some p =>
      by_cases hji : j = i
      · subst hji
        rw [setPipe_self]
        rfl
      · rw [setPipe_other hji]
        cases hp' : (w.pipelines j).pipe with
        | none => rfl
        | some p' =>
          have hundef : p.processors ≠ [] ∧ p'.processors = [] := by
            by_contra hdef
            exact h j p p' ⟨rfl, hji, hp, hp', by tauto⟩
          simp [mergePipes_two, hundef]

/-- The merge is guarded where it would not be refused and every pointer is good. -/
theorem mergeGuarded_iff {other : Option Nat} : MergeGuarded w i other ↔
    ∃ j p p', Mergeable w i other j p p' ∧ p.processors ≠ [] ∧ p.outputPorts ≠ [] := by
  constructor
  · intro h
    have hmergeable : ∃ j p p', Mergeable w i other j p p' := by
      by_contra hnone
      refine h.defined (exec_merge_undefined ?_)
      intro j p p' hm
      exact hnone ⟨j, p, p', hm⟩
    obtain ⟨j, p, p', hm⟩ := hmergeable
    have hopen : ¬ ((w.pipelines i).isInitialized = false ∨ (w.pipelines i).isCompleted = true) := by
      intro hrefuse
      obtain ⟨code, msg, hstatus⟩ := h.refuses hrefuse
      rw [exec_merge hm] at hstatus
      cases hstatus
    rw [isInitialized_eq_false hm.pipe, isCompleted_eq_true hm.pipe] at hopen
    exact ⟨j, p, p', hm, fun hp => hopen (.inl hp), fun ho => hopen (.inr ⟨fun hp =>
      hopen (.inl hp), ho⟩)⟩
  · rintro ⟨j, p, p', hm, hprocs, hports⟩
    have hexec := exec_merge hm
    refine ⟨by simp [hexec], fun h => absurd h (not_refused hm.pipe hprocs hports), ?_⟩
    intro code msg w' h
    rw [hexec] at h
    cases h

/-! ## Runs -/

/-- A call on a pipeline. -/
inductive PipelineOp where
  | initializeWith (i : Nat) (pipe : Option Pipe)
  | addTransform (i q : Nat)
  | mergePipelineBefore (i : Nat) (other : Option Nat)

def PipelineOp.call : PipelineOp → PipelineM Unit
  | .initializeWith i pipe => Pipeline.initializeWith i pipe
  | .addTransform i q => Pipeline.addTransform i q
  | .mergePipelineBefore i other => Pipeline.mergePipelineBefore i other

/-- A status is returned to the program, which goes on. -/
def step (w : Pipelines) (op : PipelineOp) : Option Pipelines :=
  match exec op.call w with
  | (.ok _, w') | (.error (.status _ _), w') => some w'
  | _ => none

/-- The pipelines are valid and the ports are those of `h`. -/
structure ValidOver (h : Heap) (w : Pipelines) : Prop where
  valid : w.Valid
  ports : ∀ r, (w.heap.output r).isSome = (h.output r).isSome

theorem ValidOver.setPipe {h : Heap} (hw : ValidOver h w) {pipe : Option Pipe}
    (hpipe : ∀ p ∈ pipe, p.PortsExist w.heap) : ValidOver h (w.setPipe i pipe) where
  valid := by
    intro k p hp
    by_cases hk : k = i
    · subst hk
      rw [setPipe_self] at hp
      exact hpipe p hp
    · rw [setPipe_other hk] at hp
      exact hw.valid k p hp
  ports := hw.ports

theorem mergedPipe_portsExist {h : Heap} (hp : p.PortsExist h) (hp' : p'.PortsExist h) :
    (mergedPipe p p').PortsExist h := by
  intro r hr
  unfold mergedPipe at hr
  split at hr
  · exact hp' r hr
  · simp only [concatPipes, List.foldl, Pipe.new, List.nil_append, List.mem_append] at hr
    rcases hr with hr | hr
    · exact hp r hr
    · exact hp' r hr

/-- A step is a call that came back, with a result or a status. -/
theorem exec_of_step {w' : Pipelines} {op : PipelineOp} (hstep : w.step op = some w') :
    ∃ r, exec op.call w = (r, w') ∧ r ≠ .error .undefined ∧ r ≠ .error .assertion := by
  unfold Pipelines.step at hstep
  split at hstep
  · rename_i hrun
    cases hstep
    exact ⟨_, hrun, by simp, by simp⟩
  · rename_i hrun
    cases hstep
    exact ⟨_, hrun, by simp, by simp⟩
  · cases hstep

/-- `InitializeWith` takes the pipe it is given or does nothing. -/
theorem initializeWith_cases {w' : Pipelines} {pipe : Option Pipe} {r : Except PipelineFail Unit}
    (hrun : exec (Pipeline.initializeWith i pipe) w = (r, w')) :
    w' = w ∨ ∃ p, pipe = some p ∧ w' = w.setPipe i (some p) := by
  simp only [Pipeline.initializeWith, exec_bind, exec_get] at hrun
  cases hinit : (w.pipelines i).isInitialized with
  | true =>
    simp only [hinit, if_true] at hrun
    exact .inl (Prod.mk.inj hrun).2.symm
  | false =>
    cases pipe with
    | none => exact .inl (by simpa [hinit] using (congrArg Prod.snd hrun).symm)
    | some p =>
      cases hempty : p.empty with
      | true => exact .inl (by simpa [hinit, hempty, exec_bind] using (congrArg Prod.snd hrun).symm)
      | false =>
        exact .inr ⟨p, rfl, by simpa [hinit, hempty] using (congrArg Prod.snd hrun).symm⟩

theorem ValidOver.initializeWith {h : Heap} {w' : Pipelines} {pipe : Option Pipe}
    {r : Except PipelineFail Unit} (hw : ValidOver h w) (hpipe : ∀ p ∈ pipe, p.PortsExist h)
    (hrun : exec (Pipeline.initializeWith i pipe) w = (r, w')) : ValidOver h w' := by
  rcases initializeWith_cases hrun with rfl | ⟨p, rfl, rfl⟩
  · exact hw
  · refine hw.setPipe ?_
    rintro p' ⟨⟩ r hr
    rw [hw.ports]
    exact hpipe p rfl r hr

/-- The ports of the new processor are there, and those of the others have not gone. -/
theorem ValidOver.joined {h h' : Heap} {outs : List PortRef} (hw : ValidOver h w)
    (hj : Joined w.heap h' q outs 0) (p : Pipe) :
    ValidOver h ({ w with heap := h' }.setPipe i (some (attach q ⟨h', p⟩).pipe)) := by
  have hkeep : ValidOver h { w with heap := h' } := by
    refine ⟨fun k p' hp' r hr => ?_, fun r => (hj.output_isSome r).trans (hw.ports r)⟩
    rw [hj.output_isSome]
    exact hw.valid k p' hp' r hr
  refine hkeep.setPipe ?_
  rintro p' ⟨⟩ r hr
  obtain ⟨-, port, hport, -⟩ := Heap.mem_openOutputs.mp hr
  rw [hport]
  rfl

theorem ValidOver.addTransform {h : Heap} {w' : Pipelines} {r : Except PipelineFail Unit}
    (hw : ValidOver h w) (hrun : exec (Pipeline.addTransform i q) w = (r, w'))
    (hdef : r ≠ .error .undefined) (hret : r ≠ .error .assertion) : ValidOver h w' := by
  cases hp : (w.pipelines i).pipe with
  | none =>
    rw [exec_addTransform_null hp] at hrun
    exact absurd (Prod.mk.inj hrun).1.symm hdef
  | some p =>
    rcases addTransform_cases q ⟨w.heap, p⟩ (hw.valid i p hp) with
      ⟨-, code, msg, hpipe⟩ | ⟨-, s', hpipe, -⟩ | ⟨-, h', hpipe, hj⟩
    · rw [exec_addTransform_pipe hp hpipe] at hrun
      cases hrun
      refine hw.setPipe ?_
      rintro p' ⟨⟩
      exact hw.valid i p hp
    · rw [exec_addTransform_pipe hp hpipe] at hrun
      exact absurd (Prod.mk.inj hrun).1.symm hret
    · rw [exec_addTransform_pipe hp hpipe] at hrun
      cases hrun
      exact hw.joined hj p

theorem ValidOver.mergePipelineBefore {h : Heap} {w' : Pipelines} {other : Option Nat}
    {r : Except PipelineFail Unit} (hw : ValidOver h w)
    (hrun : exec (Pipeline.mergePipelineBefore i other) w = (r, w'))
    (hdef : r ≠ .error .undefined) : ValidOver h w' := by
  by_cases hm : ∃ j p p', Mergeable w i other j p p'
  · obtain ⟨j, p, p', hm⟩ := hm
    rw [exec_merge hm] at hrun
    cases hrun
    refine ((hw.setPipe (by simp)).setPipe (by simp)).setPipe ?_
    rintro p'' ⟨⟩
    exact mergedPipe_portsExist (hw.valid i p hm.pipe) (hw.valid j p' hm.otherPipe)
  · have hundef : (exec (Pipeline.mergePipelineBefore i other) w).1 = .error .undefined :=
      exec_merge_undefined fun j p p' h => hm ⟨j, p, p', h⟩
    rw [hrun] at hundef
    exact absurd hundef hdef

/-- One call keeps the pointers good: ports do not go away, and a pipe only ever gets pointers at
ports it has just seen or been given. -/
theorem ValidOver.step {h : Heap} {w w' : Pipelines} {op : PipelineOp} (hw : ValidOver h w)
    (hop : ∀ i p, op = .initializeWith i (some p) → p.PortsExist h) (hstep : w.step op = some w') :
    ValidOver h w' := by
  obtain ⟨r, hrun, hdef, hret⟩ := exec_of_step hstep
  cases op with
  | initializeWith i pipe =>
    refine hw.initializeWith ?_ hrun
    rintro p hp
    exact hop i p (congrArg _ hp)
  | addTransform i q => exact hw.addTransform hrun hdef hret
  | mergePipelineBefore i other => exact hw.mergePipelineBefore hrun hdef

/-- **Every run keeps the pointers good**, given pipes over the ports there are: whatever
`AddTransform` and `MergePipelineBefore` let through, no pipeline ends up with a dangling port. -/
theorem run_valid {w w' : Pipelines} {ops : List PipelineOp} (hw : w.Valid)
    (hops : ∀ i p, .initializeWith i (some p) ∈ ops → p.PortsExist w.heap)
    (hrun : runSteps step w ops = some w') : w'.Valid := by
  refine (runSteps_history (I := fun _ => ValidOver w.heap) ⟨hw, fun _ => rfl⟩ hrun ?_).valid
  intro pre w₁ op w₂ hpre hinv hstep
  refine hinv.step ?_ hstep
  rintro i p rfl
  exact hops i p (hpre.subset (by simp))

end Pipelines

theorem WellFormed.portsExist {h : Heap} {p : Pipe} (hwf : WellFormed h p) : p.PortsExist h := by
  intro r hr
  obtain ⟨-, port, hport, -⟩ := (hwf.mem_outputPorts r).mp hr
  rw [hport]
  rfl

/-- Pipes that are well formed, as those built by `AddSource`, `AddTransform` and `MergePipes` are, lead
to good pointers only. -/
theorem Pipelines.run_valid_of_wellFormed {w w' : Pipelines} {ops : List PipelineOp} (hw : w.Valid)
    (hops : ∀ i p, .initializeWith i (some p) ∈ ops → WellFormed w.heap p)
    (hrun : runSteps Pipelines.step w ops = some w') : w'.Valid :=
  run_valid hw (fun i p hp => (hops i p hp).portsExist) hrun

/-! ## The guards -/

/-- **When the guards of the three operations are kept**, for any pipe, any pipelines and any
processor. None of them makes its check: `AddSource` keeps its guard on a processor whose first
output is connected, or that is a source anyway; `AddTransform` on a pipeline that is initialised
and not completed with a transform the pipe accepts; and `MergePipelineBefore` on such a pipeline
and another, not empty one. -/
theorem guards_iff (s : PipeState) (w : Pipelines) (hvalid : w.Valid) (i q : Nat)
    (other : Option Nat) :
    (AddSourceGuarded s q ↔ ∃ port, s.heap.output ⟨q, 0⟩ = some port ∧ (port.state ≠ none ∨
      (s.heap.procs q).inputs = [] ∧ (s.heap.procs q).outputs.length = 1)) ∧
    (AddTransformGuarded w i q ↔
      ∃ p, (w.pipelines i).pipe = some p ∧ p.processors ≠ [] ∧ p.outputPorts ≠ [] ∧
        (w.heap.procs q).inputs.length = p.outputPorts.length ∧ (w.heap.procs q).outputs ≠ []) ∧
    (MergeGuarded w i other ↔
      ∃ j p p', other = some j ∧ j ≠ i ∧ (w.pipelines i).pipe = some p ∧
        (w.pipelines j).pipe = some p' ∧ p.processors ≠ [] ∧ p.outputPorts ≠ [] ∧
        p'.processors ≠ []) := by
  refine ⟨addSourceGuarded_iff s q, Pipelines.addTransformGuarded_iff hvalid, ?_⟩
  rw [Pipelines.mergeGuarded_iff]
  constructor
  · rintro ⟨j, p, p', hm, hprocs, hports⟩
    exact ⟨j, p, p', hm.other, hm.ne, hm.pipe, hm.otherPipe, hprocs, hports, hm.defined hprocs⟩
  · rintro ⟨j, p, p', hother, hne, hp, hp', hprocs, hports, hprocs'⟩
    exact ⟨j, p, p', ⟨hother, hne, hp, hp', fun _ => hprocs'⟩, hprocs, hports⟩

/-- A pipeline that ends in a sink, one that does not, and processors that are in no pipe. -/
def someConnected : Heap where
  procs
    | 0 => ⟨[], [⟨some 0, some ⟨1, 0⟩⟩]⟩
    | 1 => ⟨[⟨some 0, some ⟨0, 0⟩⟩], []⟩
    | 2 | 3 => World.createProcessor 0 1
    | 4 => World.createProcessor 1 2
    | _ => World.createProcessor 0 1
  nextState := 1

def somePipelines : Pipelines where
  heap := someConnected
  pipelines
    | 0 => ⟨some ⟨[0, 1], [], 1⟩⟩
    | 1 => ⟨some ⟨[2], [⟨2, 0⟩], 1⟩⟩
    | 2 => ⟨some ⟨[3], [⟨3, 0⟩], 1⟩⟩
    | _ => ⟨none⟩

theorem somePipelines_valid : somePipelines.Valid := by
  intro i p hp
  rcases i with _ | _ | _ | i
  · cases hp
    intro r hr
    cases hr
  · cases hp
    intro r hr
    rw [List.mem_singleton.mp hr]
    rfl
  · cases hp
    intro r hr
    rw [List.mem_singleton.mp hr]
    rfl
  · cases hp

/-- On the pipelines with outputs all three keep their guard. -/
theorem guards_kept :
    AddSourceGuarded ⟨someConnected, ⟨[2], [⟨2, 0⟩], 1⟩⟩ 3 ∧ AddTransformGuarded somePipelines 1 4 ∧
      MergeGuarded somePipelines 1 (some 2) := by
  refine ⟨(guards_iff ⟨someConnected, ⟨[2], [⟨2, 0⟩], 1⟩⟩ somePipelines somePipelines_valid 0 3
    none).1.mpr ⟨⟨none, none⟩, rfl, .inr ⟨rfl, rfl⟩⟩, ?_⟩
  obtain ⟨-, htransform, hmerge⟩ := guards_iff ⟨someConnected, Pipe.new⟩ somePipelines
    somePipelines_valid 1 4 (some 2)
  exact ⟨htransform.mpr ⟨_, rfl, by simp, by simp, rfl, by simp [somePipelines, someConnected,
    World.createProcessor]⟩, hmerge.mpr ⟨2, _, _, rfl, by simp, rfl, rfl, by simp, by simp, by simp⟩⟩

/-- A transform is let in as a source, and a completed pipeline takes a transform, without having
it, and another pipeline. -/
theorem guards_not_kept :
    ¬ AddSourceGuarded ⟨someConnected, Pipe.new⟩ 4 ∧ ¬ AddTransformGuarded somePipelines 0 4 ∧
      ¬ MergeGuarded somePipelines 0 (some 1) := by
  refine ⟨?_, ?_, ?_⟩
  · rw [addSourceGuarded_iff]
    rintro ⟨port, hport, hne | ⟨hin, -⟩⟩
    · cases hport
      exact hne rfl
    · cases hin
  · rw [Pipelines.addTransformGuarded_iff somePipelines_valid]
    rintro ⟨p, hp, -, hports, -⟩
    cases hp
    exact hports rfl
  · rw [Pipelines.mergeGuarded_iff]
    rintro ⟨j, p, p', hm, -, hports⟩
    have hp := hm.pipe
    cases hp
    exact hports rfl

end CxxLab.CkLab
