import CxxLab.CkLab.Pipe

/-!
# `Pipe::AddSink` — the end of a pipe

`AddSink` is to put a sink of its own behind every open output port. The lambda `do_add` makes one
and connects it, the loop is over `output_ports_`, and behind the loop the list is cleared.

The call of `do_add` is an argument of `STATUS_CHECK`, which drops it. So the loop does nothing, and
the list is cleared all the same: the ports are as open as before and the pipe has lost them.
-/

set_option autoImplicit false

namespace CxxLab.CkLab

open CxxLab.Lib Exec

/-- `std::make_shared<NullSink>()`, at the address the allocator finds. -/
def makeNullSink (alloc : Heap → Nat) : PipeM Nat := do
  let s ← get
  let sink := alloc s.heap
  modify fun s => { s with heap :=
    { s.heap with procs := Function.update s.heap.procs sink ⟨[⟨none, none⟩], []⟩ } }
  return sink

/-- `do_add` of `Pipe::AddSink`. -/
def doAdd (sinkGetter : PipeM (Option Nat)) (alloc : Heap → Nat) (port : PortRef) : PipeM Unit := do
  let sink ← match ← sinkGetter with
    | some sink => pure sink
    | none => makeNullSink alloc
  let s ← get
  if (s.heap.procs sink).inputs.length ≠ 1 then
    throw (.status .pipeInvalidSink "Sink inputport size should be 1")
  if (s.heap.procs sink).outputs.length ≠ 0 then
    throw (.status .pipeInvalidSink "Sink outport size should be 0")
  connect port ⟨sink, 0⟩
  modify fun s => { s with pipe := { s.pipe with processors := s.pipe.processors ++ [sink] } }

/-- `Pipe::AddSink`. -/
def addSink (sinkGetter : PipeM (Option Nat)) (alloc : Heap → Nat) : PipeM Unit := do
  let s ← get
  if s.pipe.outputPorts.length = 0 then
    throw (.status .pipeInputsOutputsNotMatch "OutputPortSize should not be 0 before AddSink")
  let status : PipeM Unit := pure ()
  forM s.pipe.outputPorts fun port => statusCheck status (doAdd sinkGetter alloc port)
  modify fun s => { s with pipe := { s.pipe with outputPorts := [] } }
  status

/-- `Pipe::IsCompleted`. -/
def Pipe.isCompleted (p : Pipe) : Bool := !p.empty && p.outputPorts.length == 0

/-- **What `AddSink` is for**: behind each open port of the pipe there is a sink of its own, the
sinks are the last processors of the pipe, and everything that was connected still is. -/
structure SinksAdded (s s' : PipeState) : Prop where
  sinks : ∃ sinks : List Nat, sinks.length = s.pipe.outputPorts.length ∧ sinks.Nodup ∧
    (∀ q ∈ sinks, q ∉ s.pipe.processors) ∧ s'.pipe.processors = s.pipe.processors ++ sinks ∧
    ∀ (k : Nat) r q, s.pipe.outputPorts[k]? = some r → sinks[k]? = some q → s'.heap.Connected r ⟨q, 0⟩
  noPorts : s'.pipe.outputPorts = []
  kept : ∀ out inp, s.heap.Connected out inp → s'.heap.Connected out inp
  completed : s'.pipe.isCompleted = true
  connected : ∀ r, r.proc ∈ s'.pipe.processors → ¬ s'.heap.OutputOpen r

/-- Whenever `AddSink` succeeds. -/
def AddSinkCompletes (s : PipeState) (sinkGetter : PipeM (Option Nat)) (alloc : Heap → Nat) : Prop :=
  ∀ s', exec (addSink sinkGetter alloc) s = (.ok (), s') → SinksAdded s s'

/-- The loop calls nothing. -/
theorem exec_forM_statusCheck (func : PortRef → PipeM Unit) : ∀ (ports : List PortRef) (s : PipeState),
    exec (forM ports fun port => statusCheck (pure ()) (func port)) s = (.ok (), s) := by
  intro ports
  induction ports with
  | nil => intro s; rfl
  | cons port ports ih =>
    intro s
    rw [List.forM_cons, exec_bind_ok (show exec (statusCheck (pure ()) (func port)) s = (.ok (), s) from rfl)]
    exact ih s

theorem exec_addSink (sinkGetter : PipeM (Option Nat)) (alloc : Heap → Nat) (s : PipeState) :
    exec (addSink sinkGetter alloc) s =
      if s.pipe.outputPorts = [] then
        (.error (.status .pipeInputsOutputsNotMatch "OutputPortSize should not be 0 before AddSink"), s)
      else (.ok (), { s with pipe := { s.pipe with outputPorts := [] } }) := by
  rw [addSink, exec_bind_ok (exec_get s)]
  by_cases hopen : s.pipe.outputPorts = []
  · simp only [hopen, List.length_nil, if_true, exec_bind, exec_throw]
  · rw [if_neg (mt List.eq_nil_of_length_eq_zero hopen), if_neg hopen]
    exact exec_bind_ok (exec_forM_statusCheck _ _ s)

/-- **`AddSink` never completes a pipe** that has open ports, whatever sinks it is given: it returns
OK with each of the ports still open, and no processor more.

What is to make and connect a sink for each port stands in the argument of `STATUS_CHECK`, which is
not evaluated. The list of open ports is cleared behind the loop all the same, so that the pipe
takes itself for a complete one. -/
theorem addSink_not_completes {s : PipeState} (hwf : WellFormed s.heap s.pipe)
    (hopen : s.pipe.outputPorts ≠ []) (sinkGetter : PipeM (Option Nat)) (alloc : Heap → Nat) :
    (∃ s', exec (addSink sinkGetter alloc) s = (.ok (), s') ∧
      s'.pipe.processors = s.pipe.processors ∧ s'.pipe.outputPorts = [] ∧
      ∀ r ∈ s.pipe.outputPorts, s'.heap.OutputOpen r) ∧
    ¬ AddSinkCompletes s sinkGetter alloc := by
  have hrun := exec_addSink sinkGetter alloc s
  rw [if_neg hopen] at hrun
  have hports : ∀ r ∈ s.pipe.outputPorts, r.proc ∈ s.pipe.processors ∧ s.heap.OutputOpen r :=
    fun r hr => (hwf.mem_outputPorts r).mp hr
  refine ⟨⟨_, hrun, rfl, rfl, fun r hr => (hports r hr).2⟩, fun hcompletes => ?_⟩
  obtain ⟨r, hr⟩ := List.exists_mem_of_ne_nil _ hopen
  exact (hcompletes _ hrun).connected r (hports r hr).1 (hports r hr).2

/-- A source, and nothing else. -/
def oneSource : PipeState where
  heap := ⟨fun _ => World.createProcessor 0 1, 0⟩
  pipe := ⟨[0], [⟨0, 0⟩], 1⟩

theorem oneSource_wellFormed : WellFormed oneSource.heap oneSource.pipe where
  outputPorts_nodup := by decide
  mem_outputPorts := by
    rintro ⟨proc, index⟩
    constructor
    · intro hr
      cases List.mem_singleton.mp hr
      exact ⟨by decide, ⟨none, none⟩, rfl, rfl⟩
    · rintro ⟨hproc, port, hport, -⟩
      cases List.mem_singleton.mp hproc
      have hlt : index < 1 := (List.getElem?_eq_some_iff.mp hport).1
      obtain rfl : index = 0 := by omega
      exact List.mem_singleton.mpr rfl
  input_connected := by
    rintro r port - hport
    cases hport
  streams := by decide

/-- A getter that returns a null pointer, so that the sink is to be a `NullSink`. -/
theorem addSink_not_completes_oneSource :
    (∃ s', exec (addSink (pure none) fun _ => 1) oneSource = (.ok (), s') ∧
      s'.pipe.processors = oneSource.pipe.processors ∧ s'.pipe.outputPorts = [] ∧
      ∀ r ∈ oneSource.pipe.outputPorts, s'.heap.OutputOpen r) ∧
    ¬ AddSinkCompletes oneSource (pure none) fun _ => 1 :=
  addSink_not_completes oneSource_wellFormed (by decide) (pure none) fun _ => 1

/-- A sink with one input and no output, at address 1. -/
def makeSink : PipeM (Option Nat) := some <$> makeNullSink fun _ => 1

theorem not_addSinkCompletes : ¬ AddSinkCompletes oneSource makeSink fun _ => 2 := by
  intro hcompletes
  have hrun := exec_addSink makeSink (fun _ => 2) oneSource
  rw [if_neg (by decide)] at hrun
  exact (hcompletes _ hrun).connected ⟨0, 0⟩ (by decide) ⟨⟨none, none⟩, rfl, rfl⟩

end CxxLab.CkLab
