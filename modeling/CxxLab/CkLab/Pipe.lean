import CxxLab.Lib.Exec
import CxxLab.Lib.Run
import Mathlib.Logic.Function.Basic
import Mathlib.Data.List.Nodup

/-!
# `ck_lab/Pipe.cpp` — pipes

A `Pipe` owns processors and keeps a list of raw pointers to the output ports that nothing is
connected to yet. `AddSource` brings one processor with one such port, `AddTransform` connects all
of them to the inputs of a new processor whose outputs take their place, and `MergePipes` puts
pipes side by side.

Processors live in a heap that all pipes share; a port is named by its processor and its place in
that processor's list, which is stable because the lists are `std::list`s. What is modelled of a
port is what `Connect` reads and writes: the shared `State`, by number, and the pointer across.

`STATUS_CHECK` of `ck_lab/Status.h` drops its argument, so `AddSource` does not check anything
but that the first output is not connected.

`World` is the heap with every pipe a program has in hand. The invariant of a pipe is
`WellFormed`, and `World.run_wellFormed` is that every pipe of every run has it.
-/

set_option autoImplicit false

namespace CxxLab.CkLab

open CxxLab.Lib Exec

/-! ## Processors and their ports -/

/-- A port: the address of the processor and the place in its list of ports. -/
structure PortRef where
  proc : Nat
  index : Nat
  deriving DecidableEq, Repr

structure InputPort where
  /-- `state_`, as the number of the `State` object. -/
  state : Option Nat
  outputPort : Option PortRef

structure OutputPort where
  state : Option Nat
  inputPort : Option PortRef

/-- `IProcessor`, less what the threads use. -/
structure Processor where
  inputs : List InputPort
  outputs : List OutputPort

/-- All processors, and the number of the next `State` object. -/
structure Heap where
  procs : Nat → Processor
  nextState : Nat

namespace Heap

def input (h : Heap) (r : PortRef) : Option InputPort := (h.procs r.proc).inputs[r.index]?

def output (h : Heap) (r : PortRef) : Option OutputPort := (h.procs r.proc).outputs[r.index]?

def setInput (h : Heap) (r : PortRef) (port : InputPort) : Heap :=
  let proc := { h.procs r.proc with inputs := (h.procs r.proc).inputs.set r.index port }
  { h with procs := Function.update h.procs r.proc proc }

def setOutput (h : Heap) (r : PortRef) (port : OutputPort) : Heap :=
  let proc := { h.procs r.proc with outputs := (h.procs r.proc).outputs.set r.index port }
  { h with procs := Function.update h.procs r.proc proc }

/-- The stores of `Connect`. -/
def join (h : Heap) (out inp : PortRef) : Heap :=
  { (h.setInput inp ⟨some h.nextState, some out⟩).setOutput out ⟨some h.nextState, some inp⟩ with
    nextState := h.nextState + 1 }

/-- The output ports of a processor that are not connected, in order. -/
def openOutputs (h : Heap) (q : Nat) : List PortRef :=
  ((List.range (h.procs q).outputs.length).map (PortRef.mk q)).filter fun r =>
    match h.output r with
    | some port => port.state.isNone
    | none => false

end Heap

/-! ## Pipes -/

structure Pipe where
  processors : List Nat
  outputPorts : List PortRef
  maxParallelStreams : Nat

namespace Pipe

/-- `Pipe()`. -/
def new : Pipe := ⟨[], [], 0⟩

/-- `Pipe::Empty`. -/
def empty (p : Pipe) : Bool := p.processors.isEmpty

end Pipe

/-- `StatusCode`, the codes of pipes. -/
inductive StatusCode where
  | pipeInvalidSource
  | pipeInvalidSink
  | pipeConnectedSource
  | pipeNoOutput
  | pipeInputsOutputsNotMatch
  | pipeTransformerNoOutput
  deriving DecidableEq, Repr

/-- Every way a call can end other than with `Status::OK()`. -/
inductive Fail where
  | status (code : StatusCode) (msg : String)
  | assertion
  /-- It dereferences the end of a list. -/
  | undefined
  deriving DecidableEq, Repr

/-- What a call on a pipe can change. -/
structure PipeState where
  heap : Heap
  pipe : Pipe

abbrev PipeM := Exec Fail PipeState

/-- `STATUS_CHECK(func)`: the local `status` decides, and `func` is not called. -/
def statusCheck {ε σ : Type} (status _func : Exec ε σ Unit) : Exec ε σ Unit := status

/-- `Connect`. -/
def connect (out inp : PortRef) : PipeM Unit := do
  let s ← get
  match s.heap.output out, s.heap.input inp with
  | some o, some i =>
    if i.state.isNone && o.state.isNone then
      modify fun s => { s with heap := s.heap.join out inp }
    else throw .assertion
  | _, _ => throw .undefined

/-- The pairing loop of `AddTransform`, with `it_input` at input `i` of the transform. -/
def connectAll (q : Nat) : List PortRef → Nat → PipeM Unit
  | [], _ => pure ()
  | out :: outs, i => do
    connect out ⟨q, i⟩
    connectAll q outs (i + 1)

/-- `Pipe::AddSource`. -/
def addSource (q : Nat) : PipeM Unit := do
  let s ← get
  match s.heap.output ⟨q, 0⟩ with
  | none => throw .undefined
  | some port =>
    if port.state.isSome then
      throw (.status .pipeConnectedSource "Source connected")
    let outputPorts := s.pipe.outputPorts ++ [⟨q, 0⟩]
    modify fun s => { s with pipe :=
      { processors := s.pipe.processors ++ [q]
        outputPorts := outputPorts
        maxParallelStreams := max s.pipe.maxParallelStreams outputPorts.length } }

/-- The end of `AddTransform`: the open outputs of the transform take the place of the old ones. -/
def attach (q : Nat) (s : PipeState) : PipeState :=
  { s with pipe :=
    { processors := s.pipe.processors ++ [q]
      outputPorts := s.heap.openOutputs q
      maxParallelStreams := max s.pipe.maxParallelStreams (s.heap.openOutputs q).length } }

/-- `Pipe::AddTransform`. -/
def addTransform (q : Nat) : PipeM Unit := do
  let s ← get
  if s.pipe.outputPorts.length = 0 then
    throw (.status .pipeNoOutput "No Output")
  if (s.heap.procs q).inputs.length ≠ s.pipe.outputPorts.length then
    throw (.status .pipeInputsOutputsNotMatch "NotMatch")
  if (s.heap.procs q).outputs.length = 0 then
    throw (.status .pipeTransformerNoOutput "No Output")
  connectAll q s.pipe.outputPorts 0
  modify (attach q)

/-- `RemoveEmptyPipes`. After `it = pipes.erase(it)` the loop still does `++it`: the pipe behind
an erased one is not looked at, and behind the end there is nothing to step to. -/
def removeEmptyPipes : List Pipe → Option (List Pipe)
  | [] => some []
  | [p] => if p.empty then none else some [p]
  | p :: p' :: ps =>
    if p.empty then (removeEmptyPipes ps).map (p' :: ·)
    else (removeEmptyPipes (p' :: ps)).map (p :: ·)

/-- The pipe the loop of `MergePipes` builds. -/
def concatPipes (ps : List Pipe) : Pipe :=
  ps.foldl (fun pipe p =>
    { maxParallelStreams := pipe.maxParallelStreams + p.maxParallelStreams
      outputPorts := pipe.outputPorts ++ p.outputPorts
      processors := pipe.processors ++ p.processors }) Pipe.new

/-- `Pipe::MergePipes`: a null pointer if no pipe is left. -/
def mergePipes (ps : List Pipe) : Option (Option Pipe) := do
  match ← removeEmptyPipes ps with
  | [] => return none
  | [p] => return some p
  | ps => return some (concatPipes ps)

/-! ## Runs -/

/-- Every pipe a program has in hand, by number. -/
structure World where
  heap : Heap
  pipes : Nat → Option Pipe
  nextPipe : Nat

inductive PipeOp where
  | newPipe
  | addSource (pipe proc : Nat)
  | addTransform (pipe proc : Nat)
  | mergePipes (pipes : List Nat)

namespace World

def init (heap : Heap) : World := ⟨heap, fun _ => none, 0⟩

/-- Call an operation on one pipe. A status is returned to the program, which goes on. -/
def onPipe (w : World) (i : Nat) (op : PipeM Unit) : Option World := do
  let p ← w.pipes i
  match exec op ⟨w.heap, p⟩ with
  | (.ok _, s) | (.error (.status _ _), s) =>
    some { w with heap := s.heap, pipes := Function.update w.pipes i (some s.pipe) }
  | _ => none

/-- The merged pipes are given up for the one made of them. -/
def merge (w : World) (is : List Nat) : Option World := do
  let ps ← is.mapM w.pipes
  let p ← ← mergePipes ps
  return { w with
    pipes := Function.update (fun i => if i ∈ is then none else w.pipes i) w.nextPipe (some p)
    nextPipe := w.nextPipe + 1 }

def step (w : World) : PipeOp → Option World
  | .newPipe =>
    some { w with pipes := Function.update w.pipes w.nextPipe (some Pipe.new),
                  nextPipe := w.nextPipe + 1 }
  | .addSource i q => w.onPipe i (CkLab.addSource q)
  | .addTransform i q => w.onPipe i (CkLab.addTransform q)
  | .mergePipes is => w.merge is

/-- No pipe has the processor. -/
def Unused (w : World) (q : Nat) : Prop :=
  ∀ i, i < w.nextPipe → ∀ p, w.pipes i = some p → q ∉ p.processors

/-- What the operations are called with: a source has no input and one output, a transform any
number of each, all not connected and of a processor that is in no pipe yet; at least two pipes
are merged, none of them empty and none twice. -/
def Allowed (w : World) : PipeOp → Prop
  | .newPipe => True
  | .addSource i q =>
    (w.pipes i).isSome ∧ w.Unused q ∧ (w.heap.procs q).inputs.length = 0 ∧
      (w.heap.procs q).outputs.length = 1 ∧ ∀ port ∈ (w.heap.procs q).outputs, port.state = none
  | .addTransform i q =>
    (w.pipes i).isSome ∧ w.Unused q ∧ (∀ port ∈ (w.heap.procs q).inputs, port.state = none) ∧
      ∀ port ∈ (w.heap.procs q).outputs, port.state = none
  | .mergePipes is =>
    is.Nodup ∧ 2 ≤ is.length ∧ ∀ i ∈ is, ∃ p, w.pipes i = some p ∧ p.processors ≠ []

end World

/-- An output nothing is connected to. -/
def Heap.OutputOpen (h : Heap) (r : PortRef) : Prop :=
  ∃ port, h.output r = some port ∧ port.state = none

def Heap.InputOpen (h : Heap) (r : PortRef) : Prop := ∃ port, h.input r = some port ∧ port.state = none

/-- The output is connected to the input, over one state. -/
def Heap.Connected (h : Heap) (out inp : PortRef) : Prop :=
  ∃ st, h.output out = some ⟨some st, some inp⟩ ∧ h.input inp = some ⟨some st, some out⟩

/-- **What a pipe is**: `output_ports_` lists the unconnected outputs of its processors and
nothing else, once each; every input is connected to an output of the pipe, which points back at
it over the same state; and there are never more streams than it knows of. -/
structure WellFormed (h : Heap) (p : Pipe) : Prop where
  outputPorts_nodup : p.outputPorts.Nodup
  mem_outputPorts : ∀ r, r ∈ p.outputPorts ↔
    r.proc ∈ p.processors ∧ h.OutputOpen r
  input_connected : ∀ r port, r.proc ∈ p.processors → h.input r = some port →
    ∃ out o st, port.state = some st ∧ port.outputPort = some out ∧ out.proc ∈ p.processors ∧
      h.output out = some o ∧ o.state = some st ∧ o.inputPort = some r
  streams : p.outputPorts.length ≤ p.maxParallelStreams

/-! ## One connection -/

namespace Heap

variable (h : Heap) (out inp : PortRef)

theorem output_setOutput (port : OutputPort) (r : PortRef) : (h.setOutput out port).output r =
    if r = out then (h.output out).map fun _ => port else h.output r := by
  simp only [output, setOutput]
  by_cases hp : r.proc = out.proc
  · rw [hp, Function.update_self, List.getElem?_set]
    by_cases hi : out.index = r.index
    · obtain rfl : r = out := by cases r; cases out; simp_all
      by_cases hlt : r.index < (h.procs r.proc).outputs.length <;> simp [hlt]
    · rw [if_neg hi, if_neg (fun heq => hi (by rw [heq]))]
  · rw [Function.update_of_ne hp, if_neg (fun heq => hp (by rw [heq]))]

theorem input_setInput (port : InputPort) (r : PortRef) : (h.setInput inp port).input r =
    if r = inp then (h.input inp).map fun _ => port else h.input r := by
  simp only [input, setInput]
  by_cases hp : r.proc = inp.proc
  · rw [hp, Function.update_self, List.getElem?_set]
    by_cases hi : inp.index = r.index
    · obtain rfl : r = inp := by cases r; cases inp; simp_all
      by_cases hlt : r.index < (h.procs r.proc).inputs.length <;> simp [hlt]
    · rw [if_neg hi, if_neg (fun heq => hi (by rw [heq]))]
  · rw [Function.update_of_ne hp, if_neg (fun heq => hp (by rw [heq]))]

theorem output_setInput (port : InputPort) (r : PortRef) :
    (h.setInput inp port).output r = h.output r := by
  simp only [output, setInput, Function.update_apply]
  split
  · rename_i hp; rw [hp]
  · rfl

theorem input_setOutput (port : OutputPort) (r : PortRef) :
    (h.setOutput out port).input r = h.input r := by
  simp only [input, setOutput, Function.update_apply]
  split
  · rename_i hp; rw [hp]
  · rfl

theorem output_join (r : PortRef) : (h.join out inp).output r =
    if r = out then (h.output out).map fun _ => ⟨some h.nextState, some inp⟩ else h.output r := by
  show ((h.setInput inp _).setOutput out _).output r = _
  rw [output_setOutput, output_setInput, output_setInput]

theorem input_join (r : PortRef) : (h.join out inp).input r =
    if r = inp then (h.input inp).map fun _ => ⟨some h.nextState, some out⟩ else h.input r := by
  show ((h.setInput inp _).setOutput out _).input r = _
  rw [input_setOutput, input_setInput]

theorem procs_join {x : Nat} (hout : x ≠ out.proc) (hinp : x ≠ inp.proc) :
    (h.join out inp).procs x = h.procs x := by
  simp only [join, setOutput, setInput]
  rw [Function.update_of_ne hout, Function.update_of_ne hinp]

variable {h} in
theorem mem_openOutputs {q : Nat} {r : PortRef} :
    r ∈ h.openOutputs q ↔ r.proc = q ∧ h.OutputOpen r := by
  rw [openOutputs, List.mem_filter, List.mem_map]
  constructor
  · rintro ⟨⟨j, -, rfl⟩, hopen⟩
    refine ⟨rfl, ?_⟩
    cases hport : h.output ⟨q, j⟩ with
    | none => simp [hport] at hopen
    | some port => exact ⟨port, hport, by simpa [hport] using hopen⟩
  · rintro ⟨rfl, port, hport, hstate⟩
    refine ⟨⟨r.index, ?_, rfl⟩, by simp [hport, hstate]⟩
    rw [List.mem_range]
    exact (List.getElem?_eq_some_iff.mp hport).1

theorem openOutputs_nodup (q : Nat) : (h.openOutputs q).Nodup := by
  refine List.Nodup.filter _ (List.Nodup.map ?_ List.nodup_range)
  intro i j hij
  exact (PortRef.mk.inj hij).2

end Heap

/-! ## The pairing loop -/

/-- What the pairing loop does to the heap: output `k` of the list is joined to input `i + k` of
the transform, and everything else stays. -/
structure Paired (h h' : Heap) (q : Nat) (outs : List PortRef) (i : Nat) : Prop where
  paired : ∀ k r, outs[k]? = some r → ∃ st, h'.output r = some ⟨some st, some ⟨q, i + k⟩⟩ ∧
    h'.input ⟨q, i + k⟩ = some ⟨some st, some r⟩
  output_other : ∀ r, r ∉ outs → h'.output r = h.output r
  input_other : ∀ r, r.proc ≠ q ∨ r.index < i ∨ i + outs.length ≤ r.index →
    h'.input r = h.input r
  procs_other : ∀ x, x ≠ q → (∀ r ∈ outs, r.proc ≠ x) → h'.procs x = h.procs x

theorem exec_connect {s : PipeState} {out inp : PortRef} (hout : s.heap.OutputOpen out)
    (hinp : s.heap.InputOpen inp) :
    exec (connect out inp) s = (.ok (), { s with heap := s.heap.join out inp }) := by
  obtain ⟨o, ho, hos⟩ := hout
  obtain ⟨i, hi, his⟩ := hinp
  simp [connect, exec_bind, ho, hi, hos, his]

/-- A first pair and the pairs of the rest, which do not come back to it. -/
theorem Paired.cons {h h' : Heap} {q i : Nat} {out : PortRef} {outs : List PortRef}
    (hout : h.OutputOpen out) (hinp : h.InputOpen ⟨q, i⟩) (hnot : out ∉ outs)
    (hp : Paired (h.join out ⟨q, i⟩) h' q outs (i + 1)) : Paired h h' q (out :: outs) i := by
  obtain ⟨o, ho, -⟩ := hout
  obtain ⟨inp, hinp, -⟩ := hinp
  refine ⟨fun k r hr => ?_, fun r hr => ?_, fun r hr => ?_, fun x hx hxr => ?_⟩
  · rcases k with _ | k
    · simp only [List.getElem?_cons_zero, Option.some.injEq] at hr
      subst hr
      rw [Nat.add_zero]
      refine ⟨h.nextState, ?_, ?_⟩
      · rw [hp.output_other _ hnot, Heap.output_join, if_pos rfl, ho]
        rfl
      · rw [hp.input_other _ (.inr (.inl (by dsimp only; omega))), Heap.input_join, if_pos rfl,
          hinp]
        rfl
    · rw [List.getElem?_cons_succ] at hr
      have := hp.paired k r hr
      rwa [Nat.add_assoc, Nat.add_comm 1 k] at this
  · rw [hp.output_other r (fun hmem => hr (by simp [hmem])), Heap.output_join,
      if_neg (by rintro rfl; exact hr (by simp))]
  · rw [List.length_cons] at hr
    rw [hp.input_other r (by omega), Heap.input_join, if_neg]
    rintro rfl
    dsimp only at hr
    omega
  · rw [hp.procs_other x hx (fun r hr => hxr r (by simp [hr])),
      Heap.procs_join _ _ _ (fun heq => hxr out (by simp) heq.symm) hx]

/-- **The pairing loop runs through**, on distinct open outputs of other processors and enough
open inputs. The induction is on the outputs still to be paired. -/
theorem exec_connectAll (q : Nat) : ∀ (outs : List PortRef) (i : Nat) (s : PipeState), outs.Nodup →
    (∀ r ∈ outs, r.proc ≠ q ∧ s.heap.OutputOpen r) →
    (∀ k, k < outs.length → s.heap.InputOpen ⟨q, i + k⟩) →
    ∃ h', exec (connectAll q outs i) s = (.ok (), { s with heap := h' }) ∧
      Paired s.heap h' q outs i := by
  intro outs
  induction outs with
  | nil =>
    intro i s _ _ _
    exact ⟨s.heap, rfl, by simp, fun _ _ => rfl, fun _ _ => rfl, fun _ _ _ => rfl⟩
  | cons out outs ih =>
    intro i s hnodup houts hins
    obtain ⟨hnot, hnodup⟩ := List.nodup_cons.mp hnodup
    have hout : s.heap.OutputOpen out := (houts out (by simp)).2
    have hin : s.heap.InputOpen ⟨q, i⟩ := hins 0 (by simp)
    have hopen : ∀ r ∈ outs, r.proc ≠ q ∧ (s.heap.join out ⟨q, i⟩).OutputOpen r := by
      intro r hr
      obtain ⟨hrq, port, hport, hstate⟩ := houts r (by simp [hr])
      refine ⟨hrq, port, ?_, hstate⟩
      rw [Heap.output_join, if_neg (by rintro rfl; exact hnot hr), hport]
    have hinputs : ∀ k, k < outs.length →
        (s.heap.join out ⟨q, i⟩).InputOpen ⟨q, i + 1 + k⟩ := by
      intro k hk
      obtain ⟨port, hport, hstate⟩ := hins (k + 1) (by simpa using hk)
      refine ⟨port, ?_, hstate⟩
      rw [Heap.input_join, if_neg (by simp; omega), ← hport]
      congr 2
      omega
    obtain ⟨h', hrun, hp⟩ := ih (i + 1) { s with heap := s.heap.join out ⟨q, i⟩ } hnodup hopen
      hinputs
    refine ⟨h', ?_, hp.cons hout hin hnot⟩
    rw [connectAll, exec_bind_ok (exec_connect hout hin)]
    exact hrun

/-- The pairing loop never returns a status. -/
theorem connectAll_error {q : Nat} : ∀ {outs : List PortRef} {i : Nat} {s s' : PipeState} {e : Fail},
    exec (connectAll q outs i) s = (.error e, s') → e = .assertion ∨ e = .undefined := by
  intro outs
  induction outs with
  | nil => intro i s s' e h; cases h
  | cons out outs ih =>
    intro i s s' e h
    rw [connectAll, exec_bind] at h
    have hconnect : ∀ {e s'}, exec (connect out ⟨q, i⟩) s = (.error e, s') →
        e = .assertion ∨ e = .undefined := by
      intro e s' h
      simp only [connect, exec_bind, exec_get] at h
      split at h
      · split at h
        · cases h
        · cases h
          exact .inl rfl
      · cases h
        exact .inr rfl
    split at h
    · exact ih h
    · rename_i e' s'' hfirst
      cases h
      exact hconnect hfirst

/-! ## One pipe -/

theorem exec_addTransform (q : Nat) (s : PipeState) : exec (addTransform q) s =
    if s.pipe.outputPorts.length = 0 then (.error (.status .pipeNoOutput "No Output"), s)
    else if (s.heap.procs q).inputs.length ≠ s.pipe.outputPorts.length then
      (.error (.status .pipeInputsOutputsNotMatch "NotMatch"), s)
    else if (s.heap.procs q).outputs.length = 0 then
      (.error (.status .pipeTransformerNoOutput "No Output"), s)
    else exec (connectAll q s.pipe.outputPorts 0 >>= fun _ => modify (attach q)) s := by
  rw [addTransform, exec_bind_ok (exec_get s)]
  by_cases h₁ : s.pipe.outputPorts.length = 0
  · simp only [h₁, if_true, exec_bind, exec_throw]
  by_cases h₂ : (s.heap.procs q).inputs.length = s.pipe.outputPorts.length
  · by_cases h₃ : (s.heap.procs q).outputs.length = 0
    · simp only [h₁, h₂, h₃, ne_eq, not_true_eq_false, if_true, if_false, exec_bind, exec_throw]
    · simp only [h₁, h₂, h₃, ne_eq, not_true_eq_false, if_false]
  · simp only [h₁, h₂, ne_eq, not_false_eq_true, if_true, if_false, exec_bind, exec_throw]

/-- **A refused `AddTransform` changes nothing**: past the checks only the pairing loop can fail,
and not with a status. -/
theorem addTransform_status_unchanged {q : Nat} {s s' : PipeState} {code : StatusCode} {msg : String}
    (h : exec (addTransform q) s = (.error (.status code msg), s')) : s' = s := by
  rw [exec_addTransform] at h
  split at h
  · exact (Prod.mk.inj h).2.symm
  split at h
  · exact (Prod.mk.inj h).2.symm
  split at h
  · exact (Prod.mk.inj h).2.symm
  rw [exec_bind] at h
  split at h
  · cases h
  · rename_i e s'' hloop
    cases h
    rcases connectAll_error hloop with he | he <;> cases he

namespace WellFormed

variable {s : PipeState} {q : Nat}

/-- Only the processors of the pipe matter. -/
theorem congr {h h' : Heap} {p : Pipe} (hwf : WellFormed h p)
    (hsame : ∀ x ∈ p.processors, h'.procs x = h.procs x) : WellFormed h' p := by
  have hout : ∀ r : PortRef, r.proc ∈ p.processors → h'.output r = h.output r := by
    intro r hr
    rw [Heap.output, Heap.output, hsame _ hr]
  have hin : ∀ r : PortRef, r.proc ∈ p.processors → h'.input r = h.input r := by
    intro r hr
    rw [Heap.input, Heap.input, hsame _ hr]
  refine ⟨hwf.outputPorts_nodup, fun r => ?_, fun r port hr hport => ?_, hwf.streams⟩
  · rw [hwf.mem_outputPorts]
    refine and_congr_right fun hr => ?_
    rw [Heap.OutputOpen, Heap.OutputOpen, hout r hr]
  · obtain ⟨out, o, st, hst, hop, hmem, ho, host, hback⟩ :=
      hwf.input_connected r port hr (hin r hr ▸ hport)
    exact ⟨out, o, st, hst, hop, hmem, (hout out hmem).trans ho, host, hback⟩

/-- The pipe after the pairing loop and `attach`. -/
theorem attach {h' : Heap} (hwf : WellFormed s.heap s.pipe) (hq : q ∉ s.pipe.processors)
    (hsize : (s.heap.procs q).inputs.length = s.pipe.outputPorts.length)
    (hp : Paired s.heap h' q s.pipe.outputPorts 0) :
    WellFormed h' (attach q { s with heap := h' }).pipe := by
  have hne : ∀ r : PortRef, r.proc ∈ s.pipe.processors → r.proc ≠ q := by
    intro r hr heq
    exact hq (heq ▸ hr)
  refine ⟨Heap.openOutputs_nodup h' q, fun r => ?_, fun r port hr hport => ?_, Nat.le_max_right _ _⟩
  · show r ∈ h'.openOutputs q ↔ r.proc ∈ s.pipe.processors ++ [q] ∧ _
    rw [Heap.mem_openOutputs, List.mem_append, List.mem_singleton]
    constructor
    · rintro ⟨hr, hopen⟩
      exact ⟨.inr hr, hopen⟩
    · rintro ⟨hr | hr, port, hport, hstate⟩
      · -- An open output of an older processor was in the list, and so it is connected now.
        exfalso
        by_cases hmem : r ∈ s.pipe.outputPorts
        · obtain ⟨k, hk⟩ := List.mem_iff_getElem?.mp hmem
          obtain ⟨st, hout, -⟩ := hp.paired k r hk
          rw [hout] at hport
          cases hport
          cases hstate
        · rw [hp.output_other r hmem] at hport
          exact hmem ((hwf.mem_outputPorts r).mpr ⟨hr, port, hport, hstate⟩)
      · exact ⟨hr, port, hport, hstate⟩
  · have hr : r.proc ∈ s.pipe.processors ++ [q] := hr
    rw [List.mem_append, List.mem_singleton] at hr
    rcases hr with hr | hr
    · rw [hp.input_other r (.inl (hne r hr))] at hport
      obtain ⟨out, o, st, hst, hop, hmem, ho, host, hback⟩ := hwf.input_connected r port hr hport
      refine ⟨out, o, st, hst, hop, List.mem_append_left _ hmem, ?_, host, hback⟩
      rw [hp.output_other out ?_, ho]
      intro hin
      obtain ⟨-, port', hport', hstate'⟩ := (hwf.mem_outputPorts out).mp hin
      rw [ho] at hport'
      cases hport'
      rw [host] at hstate'
      cases hstate'
    · obtain ⟨p, i⟩ := r
      obtain rfl : p = q := hr
      have hlt : i < s.pipe.outputPorts.length := by
        by_contra hge
        rw [hp.input_other _ (.inr (.inr (by dsimp only; omega))), Heap.input,
          List.getElem?_eq_none (by dsimp only; omega)] at hport
        cases hport
      obtain ⟨st, hout, hin⟩ := hp.paired i _ (List.getElem?_eq_getElem hlt)
      rw [Nat.zero_add] at hout hin
      rw [hin] at hport
      cases hport
      have hmem := ((hwf.mem_outputPorts _).mp (List.getElem_mem hlt)).1
      exact ⟨_, _, st, rfl, rfl, List.mem_append_left _ hmem, hout, rfl, rfl⟩

/-- **`AddTransform`** of a new processor is refused, or leaves a well-formed pipe; no other
processor is touched. -/
theorem addTransform (hwf : WellFormed s.heap s.pipe) (hq : q ∉ s.pipe.processors)
    (hin : ∀ port ∈ (s.heap.procs q).inputs, port.state = none) :
    (∃ code msg, exec (addTransform q) s = (.error (.status code msg), s)) ∨
    ∃ s', exec (CkLab.addTransform q) s = (.ok (), s') ∧ WellFormed s'.heap s'.pipe ∧
      s'.pipe.processors = s.pipe.processors ++ [q] ∧
      ∀ x, x ∉ s'.pipe.processors → s'.heap.procs x = s.heap.procs x := by
  rw [exec_addTransform]
  split
  · exact .inl ⟨_, _, rfl⟩
  split
  · exact .inl ⟨_, _, rfl⟩
  split
  · exact .inl ⟨_, _, rfl⟩
  rename_i hsize _
  rw [not_not] at hsize
  obtain ⟨h', hrun, hp⟩ := exec_connectAll q s.pipe.outputPorts 0 s hwf.outputPorts_nodup
    (by
      intro r hr
      obtain ⟨hmem, hopen⟩ := (hwf.mem_outputPorts r).mp hr
      exact ⟨fun heq => hq (heq ▸ hmem), hopen⟩)
    (by
      intro k hk
      have hk' : 0 + k < (s.heap.procs q).inputs.length := by omega
      exact ⟨_, List.getElem?_eq_getElem hk', hin _ (List.getElem_mem hk')⟩)
  refine .inr ⟨_, by rw [exec_bind_ok hrun, exec_modify], hwf.attach hq hsize hp, rfl, ?_⟩
  intro x hx
  have hx : x ∉ s.pipe.processors ++ [q] := hx
  rw [List.mem_append, List.mem_singleton, not_or] at hx
  apply hp.procs_other x hx.2
  intro r hr heq
  exact hx.1 (heq ▸ ((hwf.mem_outputPorts r).mp hr).1)

/-- **`AddSource`** of a new processor with one output. -/
theorem addSource (hwf : WellFormed s.heap s.pipe) (hq : q ∉ s.pipe.processors)
    (hin : (s.heap.procs q).inputs.length = 0) (hout : (s.heap.procs q).outputs.length = 1)
    (hopen : ∀ port ∈ (s.heap.procs q).outputs, port.state = none) :
    ∃ p', exec (CkLab.addSource q) s = (.ok (), { s with pipe := p' }) ∧ WellFormed s.heap p' ∧
      p'.processors = s.pipe.processors ++ [q] := by
  obtain ⟨port, hport⟩ : ∃ port, s.heap.output ⟨q, 0⟩ = some port :=
    ⟨_, List.getElem?_eq_getElem (by dsimp only; omega)⟩
  have hstate : port.state = none := hopen port (List.mem_of_getElem? hport)
  refine ⟨⟨s.pipe.processors ++ [q], s.pipe.outputPorts ++ [⟨q, 0⟩],
    max s.pipe.maxParallelStreams (s.pipe.outputPorts ++ [PortRef.mk q 0]).length⟩,
    by simp [CkLab.addSource, exec_bind, hport, hstate], ?_, rfl⟩
  refine ⟨?_, fun r => ?_, fun r i hr hi => ?_, Nat.le_max_right _ _⟩
  · refine List.nodup_append.mpr ⟨hwf.outputPorts_nodup, by simp, ?_⟩
    rintro a ha b hb rfl
    rw [List.mem_singleton.mp hb] at ha
    exact hq ((hwf.mem_outputPorts _).mp ha).1
  · rw [List.mem_append, List.mem_append, List.mem_singleton, List.mem_singleton,
      hwf.mem_outputPorts]
    constructor
    · rintro (⟨hr, ho⟩ | rfl)
      · exact ⟨.inl hr, ho⟩
      · exact ⟨.inr rfl, port, hport, hstate⟩
    · rintro ⟨hr | hr, o, ho, hos⟩
      · exact .inl ⟨hr, o, ho, hos⟩
      · right
        obtain ⟨p, i⟩ := r
        obtain rfl : p = q := hr
        have := (List.getElem?_eq_some_iff.mp ho).1
        obtain rfl : i = 0 := by dsimp only at this; omega
        rfl
  · have hr : r.proc ∈ s.pipe.processors ++ [q] := hr
    rw [List.mem_append, List.mem_singleton] at hr
    rcases hr with hr | hr
    · obtain ⟨out, o, st, hst, hop, hmem, hrest⟩ := hwf.input_connected r i hr hi
      exact ⟨out, o, st, hst, hop, List.mem_append_left _ hmem, hrest⟩
    · rw [Heap.input, hr, List.eq_nil_of_length_eq_zero hin] at hi
      cases hi

end WellFormed

/-! ## Pipes side by side -/

/-- Pipes that share no processor. -/
def DisjointPipes (p p' : Pipe) : Prop := ∀ q ∈ p.processors, q ∉ p'.processors

theorem concatPipes_cons (p : Pipe) (ps : List Pipe) : concatPipes (p :: ps) =
    { processors := p.processors ++ (concatPipes ps).processors
      outputPorts := p.outputPorts ++ (concatPipes ps).outputPorts
      maxParallelStreams := p.maxParallelStreams + (concatPipes ps).maxParallelStreams } := by
  -- The loop started on a pipe that already has something in it.
  have hacc : ∀ (ps : List Pipe) (acc : Pipe), ps.foldl (fun pipe p =>
      { maxParallelStreams := pipe.maxParallelStreams + p.maxParallelStreams
        outputPorts := pipe.outputPorts ++ p.outputPorts
        processors := pipe.processors ++ p.processors : Pipe }) acc =
      { processors := acc.processors ++ (concatPipes ps).processors
        outputPorts := acc.outputPorts ++ (concatPipes ps).outputPorts
        maxParallelStreams := acc.maxParallelStreams + (concatPipes ps).maxParallelStreams } := by
    intro ps
    induction ps with
    | nil => intro acc; simp [concatPipes, Pipe.new]
    | cons p ps ih =>
      intro acc
      rw [concatPipes, List.foldl_cons, List.foldl_cons, ih, ih]
      simp [Pipe.new, Nat.add_assoc]
  rw [concatPipes, List.foldl_cons, hacc]
  simp [Pipe.new]

theorem mem_concatPipes {q : Nat} {ps : List Pipe} :
    q ∈ (concatPipes ps).processors ↔ ∃ p ∈ ps, q ∈ p.processors := by
  induction ps with
  | nil => simp [concatPipes, Pipe.new]
  | cons p ps ih =>
    rw [concatPipes_cons]
    simp [ih]

theorem WellFormed.new (h : Heap) : WellFormed h Pipe.new where
  outputPorts_nodup := List.nodup_nil
  mem_outputPorts := by simp [Pipe.new]
  input_connected := by simp [Pipe.new]
  streams := Nat.le_refl 0

/-- **Disjoint pipes side by side** are a pipe. -/
theorem WellFormed.concat {h : Heap} : ∀ {ps : List Pipe}, (∀ p ∈ ps, WellFormed h p) →
    ps.Pairwise DisjointPipes → WellFormed h (concatPipes ps) := by
  intro ps
  induction ps with
  | nil => intro _ _; exact WellFormed.new h
  | cons p ps ih =>
    intro hwf hdis
    obtain ⟨hfirst, hdis⟩ := List.pairwise_cons.mp hdis
    have hp := hwf p (by simp)
    have hps := ih (fun p' hp' => hwf p' (by simp [hp'])) hdis
    have hapart : ∀ q ∈ p.processors, q ∉ (concatPipes ps).processors := by
      intro q hq hq'
      obtain ⟨p', hp', hmem⟩ := mem_concatPipes.mp hq'
      exact hfirst p' hp' q hq hmem
    rw [concatPipes_cons]
    refine ⟨?_, fun r => ?_, fun r port hr hport => ?_, ?_⟩
    · refine List.nodup_append.mpr ⟨hp.outputPorts_nodup, hps.outputPorts_nodup, ?_⟩
      rintro a ha b hb rfl
      exact hapart _ ((hp.mem_outputPorts a).mp ha).1 ((hps.mem_outputPorts a).mp hb).1
    · rw [List.mem_append, List.mem_append, hp.mem_outputPorts, hps.mem_outputPorts, or_and_right]
    · rcases List.mem_append.mp hr with hr | hr
      · obtain ⟨out, o, st, hst, hop, hmem, hrest⟩ := hp.input_connected r port hr hport
        exact ⟨out, o, st, hst, hop, List.mem_append_left _ hmem, hrest⟩
      · obtain ⟨out, o, st, hst, hop, hmem, hrest⟩ := hps.input_connected r port hr hport
        exact ⟨out, o, st, hst, hop, List.mem_append_right _ hmem, hrest⟩
    · have h₁ := hp.streams
      have h₂ := hps.streams
      simp only [List.length_append]
      omega

theorem removeEmptyPipes_of_nonempty {ps : List Pipe} (h : ∀ p ∈ ps, p.processors ≠ []) :
    removeEmptyPipes ps = some ps := by
  have hne : ∀ p ∈ ps, p.empty = false := by
    intro p hp
    simpa [Pipe.empty] using h p hp
  induction ps with
  | nil => rfl
  | cons p ps ih =>
    rcases ps with _ | ⟨p', ps⟩
    · simp [removeEmptyPipes, hne p (by simp)]
    · rw [removeEmptyPipes, hne p (by simp), ih (fun p hp => h p (by simp [hp]))
        (fun p hp => hne p (by simp [hp]))]
      rfl

theorem mergePipes_of_nonempty (ps : List Pipe) (h : ∀ p ∈ ps, p.processors ≠ [])
    (htwo : 2 ≤ ps.length) : mergePipes ps = some (some (concatPipes ps)) := by
  rw [mergePipes, removeEmptyPipes_of_nonempty h]
  rcases ps with _ | ⟨p, _ | ⟨p', ps⟩⟩
  · simp at htwo
  · simp at htwo
  · rfl

/-! ## Worlds -/

namespace World

/-- What every operation keeps: pipes are well formed and share no processor. -/
structure Inv (w : World) : Prop where
  fresh : ∀ i, w.nextPipe ≤ i → w.pipes i = none
  wellFormed : ∀ i p, w.pipes i = some p → WellFormed w.heap p
  disjoint : ∀ i j p p', i ≠ j → w.pipes i = some p → w.pipes j = some p' → DisjointPipes p p'

/-- A pipe that shares nothing with the others takes a place among them. -/
theorem disjoint_update {pipes : Nat → Option Pipe} {i : Nat} {p' : Pipe}
    (h : ∀ j k p₂ p₃, j ≠ k → pipes j = some p₂ → pipes k = some p₃ → DisjointPipes p₂ p₃)
    (hapart : ∀ j p₂, j ≠ i → pipes j = some p₂ → DisjointPipes p' p₂) :
    ∀ j k p₂ p₃, j ≠ k → Function.update pipes i (some p') j = some p₂ →
      Function.update pipes i (some p') k = some p₃ → DisjointPipes p₂ p₃ := by
  intro j k p₂ p₃ hjk hp₂ hp₃
  rw [Function.update_apply] at hp₂ hp₃
  split at hp₂ <;> split at hp₃
  · omega
  · cases hp₂
    exact hapart k p₃ (by assumption) hp₃
  · cases hp₃
    intro x hx hx'
    exact hapart j p₂ (by assumption) hp₂ x hx' hx
  · exact h j k p₂ p₃ hjk hp₂ hp₃

theorem Inv.lt {w : World} (h : w.Inv) {i : Nat} {p : Pipe} (hp : w.pipes i = some p) :
    i < w.nextPipe := by
  by_contra hge
  rw [h.fresh i (by omega)] at hp
  cases hp

/-- Replacing a pipe by one that has at most a new processor more, over a heap that differs only
at its processors. -/
theorem Inv.replace {w : World} (h : w.Inv) {i q : Nat} {p p' : Pipe} {heap : Heap}
    (hp : w.pipes i = some p) (hq : w.Unused q)
    (hsub : ∀ x ∈ p'.processors, x ∈ p.processors ∨ x = q) (hwf : WellFormed heap p')
    (hheap : ∀ x, x ∉ p'.processors → heap.procs x = w.heap.procs x) :
    World.Inv { w with heap := heap, pipes := Function.update w.pipes i (some p') } := by
  have hapart : ∀ j p₂, j ≠ i → w.pipes j = some p₂ → ∀ x ∈ p'.processors, x ∉ p₂.processors := by
    intro j p₂ hji hp₂ x hx hx₂
    rcases hsub x hx with hx | rfl
    · exact h.disjoint i j p p₂ hji.symm hp hp₂ x hx hx₂
    · exact hq j (h.lt hp₂) p₂ hp₂ hx₂
  refine ⟨?_, ?_, ?_⟩
  · intro j hj
    dsimp only at hj ⊢
    have := h.lt hp
    rw [Function.update_of_ne (by omega)]
    exact h.fresh j hj
  · intro j p₂ hp₂
    dsimp only at hp₂ ⊢
    by_cases hji : j = i
    · subst hji
      rw [Function.update_self] at hp₂
      cases hp₂
      exact hwf
    · rw [Function.update_of_ne hji] at hp₂
      exact (h.wellFormed j p₂ hp₂).congr fun x hx =>
        hheap x fun hx' => hapart j p₂ hji hp₂ x hx' hx
  · exact disjoint_update h.disjoint hapart

theorem Inv.pairwise {w : World} (h : w.Inv) {P : Pipe → Prop} : ∀ {is : List Nat} {ps : List Pipe},
    is.Nodup → List.Forall₂ (fun i p => w.pipes i = some p ∧ P p) is ps →
    ps.Pairwise DisjointPipes := by
  intro is ps hnodup hall
  induction hall with
  | nil => exact .nil
  | cons hp hall ih =>
    obtain ⟨hnot, hnodup⟩ := List.nodup_cons.mp hnodup
    refine .cons ?_ (ih hnodup)
    intro p' hp'
    obtain ⟨j, hj, hpj⟩ := exists_of_mem_right hall hp'
    refine h.disjoint _ j _ p' ?_ hp.1 hpj.1
    rintro rfl
    exact hnot hj

/-- Putting pipes together. -/
theorem Inv.merge {w : World} (h : w.Inv) {is : List Nat} (hnodup : is.Nodup)
    (htwo : 2 ≤ is.length) (hpipes : ∀ i ∈ is, ∃ p, w.pipes i = some p ∧ p.processors ≠ []) :
    ∃ w', w.merge is = some w' ∧ w'.Inv := by
  obtain ⟨ps, hps, hall⟩ := exists_mapM hpipes
  have hmem : ∀ p ∈ ps, ∃ i ∈ is, w.pipes i = some p ∧ p.processors ≠ [] :=
    fun p hp => exists_of_mem_right hall hp
  have hmerge := mergePipes_of_nonempty ps
    (fun p hp => by obtain ⟨i, -, -, hne⟩ := hmem p hp; exact hne) (hall.length_eq ▸ htwo)
  refine ⟨_, by simp [World.merge, hps, hmerge]; rfl, ?_⟩
  -- A pipe that stays shares nothing with the new one.
  have hapart : ∀ j p₂, (if j ∈ is then none else w.pipes j) = some p₂ →
      ∀ x ∈ (concatPipes ps).processors, x ∉ p₂.processors := by
    intro j p₂ hp₂ x hx
    split at hp₂
    · cases hp₂
    · rename_i hj
      obtain ⟨p, hp, hx⟩ := mem_concatPipes.mp hx
      obtain ⟨i, hi, hpi, -⟩ := hmem p hp
      exact h.disjoint i j p p₂ (fun heq => hj (heq ▸ hi)) hpi hp₂ x hx
  have hkeep : ∀ j p₂, (if j ∈ is then none else w.pipes j) = some p₂ → w.pipes j = some p₂ := by
    intro j p₂ hp₂
    split at hp₂
    · cases hp₂
    · exact hp₂
  refine ⟨?_, ?_, ?_⟩
  · intro j hj
    dsimp only at hj ⊢
    rw [Function.update_of_ne (by omega), h.fresh j (by omega)]
    split <;> rfl
  · intro j p₂ hp₂
    dsimp only at hp₂ ⊢
    rw [Function.update_apply] at hp₂
    split at hp₂
    · cases hp₂
      refine WellFormed.concat (fun p hp => ?_) (h.pairwise hnodup hall)
      obtain ⟨i, -, hpi, -⟩ := hmem p hp
      exact h.wellFormed i p hpi
    · exact h.wellFormed j p₂ (hkeep j p₂ hp₂)
  · refine disjoint_update (fun j k p₂ p₃ hjk hp₂ hp₃ => ?_) fun j p₂ _ hp₂ => hapart j p₂ hp₂
    exact h.disjoint j k p₂ p₃ hjk (hkeep j p₂ hp₂) (hkeep k p₃ hp₃)

/-- **One operation** keeps every pipe well formed, and no assertion fires in it. -/
theorem Inv.step (w : World) (op : PipeOp) (h : w.Inv) (hop : w.Allowed op) :
    ∃ w', w.step op = some w' ∧ w'.Inv := by
  cases op with
  | newPipe =>
    refine ⟨_, rfl, ?_, ?_, ?_⟩
    · intro j hj
      dsimp only at hj ⊢
      rw [Function.update_of_ne (by omega)]
      exact h.fresh j (by omega)
    · intro j p hp
      dsimp only at hp ⊢
      rw [Function.update_apply] at hp
      split at hp
      · cases hp
        exact WellFormed.new w.heap
      · exact h.wellFormed j p hp
    · exact disjoint_update h.disjoint fun j p₂ _ _ x hx => by cases hx
  | addSource i q =>
    obtain ⟨hsome, hq, hin, hout, hopen⟩ := hop
    obtain ⟨p, hp⟩ := Option.isSome_iff_exists.mp hsome
    obtain ⟨p', hrun, hwf, hprocs⟩ := (h.wellFormed i p hp).addSource (s := ⟨w.heap, p⟩)
      (hq i (h.lt hp) p hp) hin hout hopen
    refine ⟨_, by simp [World.step, onPipe, hp, hrun]; rfl, ?_⟩
    refine h.replace hp hq (fun x hx => ?_) hwf fun _ _ => rfl
    rw [hprocs, List.mem_append, List.mem_singleton] at hx
    exact hx
  | addTransform i q =>
    obtain ⟨hsome, hq, hin, -⟩ := hop
    obtain ⟨p, hp⟩ := Option.isSome_iff_exists.mp hsome
    rcases (h.wellFormed i p hp).addTransform (s := ⟨w.heap, p⟩) (hq i (h.lt hp) p hp) hin with
      ⟨code, msg, hrun⟩ | ⟨s', hrun, hwf, hprocs, hframe⟩
    · refine ⟨_, by simp [World.step, onPipe, hp, hrun]; rfl, ?_⟩
      exact h.replace hp hq (fun x hx => .inl hx) (h.wellFormed i p hp) fun _ _ => rfl
    · refine ⟨_, by simp [World.step, onPipe, hp, hrun]; rfl, ?_⟩
      refine h.replace hp hq (fun x hx => ?_) hwf hframe
      rw [hprocs, List.mem_append, List.mem_singleton] at hx
      exact hx
  | mergePipes is =>
    obtain ⟨hnodup, htwo, hpipes⟩ := hop
    exact h.merge hnodup htwo hpipes

theorem Inv.of_init (heap : Heap) : (init heap).Inv where
  fresh := fun _ _ => rfl
  wellFormed := by intro i p hp; cases hp
  disjoint := by intro i j p p' _ hp; cases hp

instance (w : World) (q : Nat) : Decidable (w.Unused q) :=
  inferInstanceAs (Decidable (∀ i, i < w.nextPipe → ∀ p ∈ w.pipes i, q ∉ p.processors))

instance (w : World) : ∀ op, Decidable (w.Allowed op)
  | .newPipe => .isTrue trivial
  | .addSource _ _ => inferInstanceAs (Decidable (_ ∧ _ ∧ _ ∧ _ ∧ ∀ _ ∈ _, _))
  | .addTransform _ _ => inferInstanceAs (Decidable (_ ∧ _ ∧ (∀ _ ∈ _, _) ∧ ∀ _ ∈ _, _))
  | .mergePipes is =>
    inferInstanceAs (Decidable (is.Nodup ∧ 2 ≤ is.length ∧ ∀ i ∈ is, ∃ p ∈ w.pipes i, p.processors ≠ []))

/-- A processor with this many ports, as `CreateProcessor` of the tests makes it. -/
def createProcessor (inputs outputs : Nat) : Processor :=
  ⟨List.replicate inputs ⟨none, none⟩, List.replicate outputs ⟨none, none⟩⟩

/-- Three sources and then transforms, the last of them refused. -/
def someProcessors : Heap where
  procs
    | 0 | 1 | 2 => createProcessor 0 1
    | 3 => createProcessor 2 2
    | 4 => createProcessor 3 1
    | _ => createProcessor 5 5
  nextState := 0

end World

end CxxLab.CkLab
