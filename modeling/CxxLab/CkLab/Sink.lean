import CxxLab.CkLab.Port
import CxxLab.CkLab.Pipe

/-!
# `ck_lab/ISink.cpp` — sinks

A sink has one input port in `inputs_` and a second one of its own, `input_`, which `Prepare` works
with: it asks for data, and with data there pulls it into `chunk_` and is `Ready`; `Work` is then
to hand the chunk to `Consume`.

`input_` is copied from `inputs_.front()` in the constructor, before anything is connected, and a
copy of a port shares nothing with it. `Connect` on `inputs_.front()` leaves `state_` of `input_`
null, and `Prepare` goes through it. `Work` makes its call of `Consume` an argument of
`STATUS_CHECK`, which does not evaluate it: a chunk that had come this far would be dropped. And
between the two, `Prepare` asks for data whether or not some is there, which `SetFlags` answers by
clearing `HAS_DATA` (`exec_iSinkPrepare_connected`).

A class of sinks is what it does in `Consume` and whether it takes `Prepare` from `ISink` or closes
its input there, as `NullSink` does. The system is the sink, the output port at the other end of
its connection and what went through them. Calls are atomic, and a call through a null pointer has
no outcome.
-/

set_option autoImplicit false

namespace CxxLab.CkLab

open CxxLab.Lib Exec

/-! ## Sinks -/

/-- `IProcessor::State`. -/
inductive ProcessorState where
  | initialized
  | needData
  | portFull
  | finished
  | ready
  deriving DecidableEq, Repr

/-- An `InputPort` of a sink. There is one `State` in the system: the port has it or a null
pointer. -/
structure SinkInput where
  isConnected : Bool
  /-- `data_`. -/
  data : Word
  isFinished : Bool

/-- The copy constructor: `DataPtr` does not copy, it allocates. -/
def SinkInput.copy (p : SinkInput) (data : Word) : SinkInput := { p with data := data }

/-- Where a class of sinks has its `Prepare` from. -/
inductive PrepareOf where
  | iSink
  | nullSink
  deriving DecidableEq, Repr

/-- A class derived from `ISink`, with objects of fields `κ`: `Consume` gives a status, by its code
and message unless it is OK, and can change the fields. -/
structure SinkClass (D κ : Type) where
  consume : D → κ → Except (Int × String) Unit × κ
  prepareOf : PrepareOf

/-- `ISink`. -/
structure Sink (D κ : Type) where
  /-- `inputs_.front()`. -/
  front : SinkInput
  /-- `input_`. -/
  input : SinkInput
  state : ProcessorState
  chunk : D
  fields : κ

/-- `ISink::ISink`, with the pointers its two ports allocate. -/
def Sink.new {D κ : Type} [Inhabited D] (frontData inputData : Word) (fields : κ) : Sink D κ :=
  let front : SinkInput := ⟨false, frontData, false⟩
  { front := front, input := front.copy inputData, state := .initialized, chunk := default,
    fields := fields }

/-- A sink, the `State` and the output port of its connection, and what went through them. -/
structure SinkSystem (D κ : Type) where
  /-- `State::data_`. -/
  word : Word
  /-- `OutputPort::data_`. -/
  output : Word
  heap : Word → D
  sink : Sink D κ
  pushed : List D
  consumed : List D
  /-- `chunk_` has been given to `Consume` since it was pulled. -/
  handed : Bool

variable {D κ : Type}

/-- `Connect(output, sink.GetInputs().front())`. -/
def Sink.connect (sink : Sink D κ) (word output : Word) (heap : Word → D) : SinkSystem D κ :=
  { word := word, output := output, heap := heap
    sink := { sink with front := { sink.front with isConnected := true } }
    pushed := [], consumed := [], handed := false }

inductive SinkFail where
  | status (code : Int) (msg : String)
  /-- It goes through a null pointer. -/
  | undefined
  deriving DecidableEq, Repr

abbrev SinkM (D κ : Type) := Exec SinkFail (SinkSystem D κ)

namespace SinkSystem

/-- The pair of ports seen from an input port. -/
def portsOf (s : SinkSystem D κ) (input : SinkInput) : Ports D :=
  { state := s.word, output := s.output, input := input.data, heap := s.heap
    isFinished := input.isFinished }

/-- What a call through `state_` of `input_` leaves. -/
def putInput (s : SinkSystem D κ) (p : Ports D) : SinkSystem D κ :=
  { s with
    word := p.state
    heap := p.heap
    sink := { s.sink with
      input := { s.sink.input with data := p.input, isFinished := p.isFinished } } }

def setState (s : SinkSystem D κ) (state : ProcessorState) : SinkSystem D κ :=
  { s with sink := { s.sink with state := state } }

end SinkSystem

/-! ## Calls -/

/-- A call on `input_` that goes through its `state_`. -/
def viaInput {β : Type} (call : Ports D → Option (β × Ports D)) : SinkM D κ β := do
  let s ← get
  if !s.sink.input.isConnected then throw .undefined
  match call (s.portsOf s.sink.input) with
  | none => throw .undefined
  | some (b, p) =>
    modify fun s => s.putInput p
    return b

/-- `input_.IsFinished()`: the answer that is remembered needs no `state_`. -/
def inputIsFinished : SinkM D κ Bool := do
  let s ← get
  if s.sink.input.isFinished then return true
  viaInput fun p => some p.checkFinished

/-- `ISink::Prepare`. `OnFinish` does nothing. -/
def iSinkPrepare [Inhabited D] (garbage : Word) (spurious spurious' : Nat) : SinkM D κ Unit := do
  let s ← get
  if s.sink.state = .ready then
    return
  if (← inputIsFinished) && s.sink.state != .finished then
    modify fun s => s.setState .finished
    return
  viaInput fun p => some ((), p.setNeeded garbage spurious)
  if !(← viaInput fun p => some (p.hasData, p)) then
    modify fun s => s.setState .needData
    return
  let chunk ← viaInput fun p => p.pull true spurious'
  modify fun s => { s with sink := { s.sink with chunk := chunk, state := .ready }, handed := false }

/-- `NullSink::Prepare`. -/
def nullSinkPrepare : SinkM D κ Unit :=
  modify fun s => { s with sink := { s.sink with
    input := { s.sink.input with isFinished := true }, state := .finished } }

/-- `Consume(std::move(chunk_))`. -/
def consumeChunk [Inhabited D] (cls : SinkClass D κ) : SinkM D κ Unit := do
  let s ← get
  let (r, fields) := cls.consume s.sink.chunk s.sink.fields
  modify fun s => { s with
    sink := { s.sink with chunk := default, fields := fields }
    consumed := s.consumed ++ [s.sink.chunk]
    handed := true }
  match r with
  | .ok _ => return
  | .error (code, msg) => throw (.status code msg)

/-- `ISink::Work`. -/
def work [Inhabited D] (cls : SinkClass D κ) : SinkM D κ Unit := do
  let status : SinkM D κ Unit := pure ()
  statusCheck status (consumeChunk cls)
  modify fun s => s.setState .initialized
  status

/-- A call, with everything that is not up to the caller. -/
inductive SinkCall (D : Type) where
  | push (d : D) (spurious : Nat)
  | prepare (garbage : Word) (spurious spurious' : Nat)
  | work

namespace SinkSystem

/-- `Push` on the output port. -/
def push (s : SinkSystem D κ) (d : D) (spurious : Nat) : Option (SinkSystem D κ) := do
  let p ← (s.portsOf s.sink.front).push d spurious
  return { s with word := p.state, output := p.output, heap := p.heap, pushed := s.pushed ++ [d] }

/-- What is left after a call that returns, with whatever status. -/
def after (s : SinkSystem D κ) (call : SinkM D κ Unit) : Option (SinkSystem D κ) :=
  match exec call s with
  | (.ok _, s') | (.error (.status _ _), s') => some s'
  | (.error .undefined, _) => none

def step [Inhabited D] (cls : SinkClass D κ) (s : SinkSystem D κ) :
    SinkCall D → Option (SinkSystem D κ)
  | .push d spurious => s.push d spurious
  | .prepare garbage spurious spurious' => match cls.prepareOf with
    | .iSink => s.after (iSinkPrepare garbage spurious spurious')
    | .nullSink => s.after nullSinkPrepare
  | .work => s.after (CkLab.work cls)

/-- Pushes are made when the port can accept data, and `Work` is called when the sink is ready. -/
def Allowed (s : SinkSystem D κ) : SinkCall D → Prop
  | .push _ _ => (s.portsOf s.sink.front).canPush = true
  | .prepare _ _ _ => True
  | .work => s.sink.state = .ready

/-- What was pushed and not yet consumed: the sink's chunk, and before it the one in the port. -/
def pending (s : SinkSystem D κ) : List D :=
  (if s.sink.state = .ready ∧ s.handed = false then [s.sink.chunk] else []) ++
    (if (s.portsOf s.sink.front).hasData then [s.heap (s.word &&& ptrMask)] else [])

/-- What `Work` owes a chunk: it is consumed, and a status that is not OK is returned with the sink
still ready. -/
def WorkDelivers [Inhabited D] (cls : SinkClass D κ) (s : SinkSystem D κ) : Prop :=
  s.sink.state = .ready →
    (exec (CkLab.work cls) s).2.consumed = s.consumed ++ [s.sink.chunk] ∧
    ∀ code msg, (cls.consume s.sink.chunk s.sink.fields).1 = .error (code, msg) →
      (exec (CkLab.work cls) s).1 = .error (.status code msg) ∧
        (exec (CkLab.work cls) s).2.sink.state = .ready

/-- **Delivery** over a run: at every point of it every call has returned, what was pushed was
consumed, in order, or is still there, and a `Work` does what it owes. -/
def Delivers [Inhabited D] (cls : SinkClass D κ) (s : SinkSystem D κ) (calls : List (SinkCall D)) :
    Prop :=
  ∀ pre, pre <+: calls → ∃ s', runSteps (step cls) s pre = some s' ∧
    s'.pushed = s'.consumed ++ s'.pending ∧ WorkDelivers cls s'

end SinkSystem

/-! ## `Prepare` and `Work` -/

/-- **`Prepare` goes through the null `state_`** of `input_`, and has no outcome. -/
theorem exec_iSinkPrepare_null [Inhabited D] {s : SinkSystem D κ} {garbage : Word}
    {spurious spurious' : Nat} (hstate : s.sink.state ≠ .ready)
    (hnull : s.sink.input.isConnected = false) (hopen : s.sink.input.isFinished = false) :
    exec (iSinkPrepare garbage spurious spurious') s = (.error .undefined, s) := by
  simp [iSinkPrepare, inputIsFinished, viaInput, exec_bind, hstate, hnull, hopen]

theorem exec_viaInput {β : Type} (s : SinkSystem D κ) (call : Ports D → Option (β × Ports D))
    {b : β} {p : Ports D} (hconnected : s.sink.input.isConnected = true)
    (hcall : call (s.portsOf s.sink.input) = some (b, p)) :
    exec (viaInput call) s = (.ok b, s.putInput p) := by
  simp only [viaInput, exec_bind, exec_get, hconnected, hcall, Bool.not_true, Bool.false_eq_true,
    if_false]
  rfl

/-- The data of a word that only has the flag for being asked, over the pointer it had. -/
theorem hasData_asked {p : Ports D} {w : Word} (h : p.state = Flag.isNeeded ||| (w &&& ptrMask)) :
    p.hasData = false := by
  rw [Ports.hasData_eq, h, BitVec.getLsbD_or, BitVec.getLsbD_and,
    show Flag.isNeeded.getLsbD 2 = false by decide, show ptrMask.getLsbD 2 = false by decide,
    Bool.and_false, Bool.or_false]

/-- Were `input_` connected, `Prepare` would still get no data: it asks for some first, and that
clears `HAS_DATA`, so what is in the port is dropped. -/
theorem exec_iSinkPrepare_connected [Inhabited D] {s : SinkSystem D κ} {garbage : Word}
    {spurious spurious' : Nat} (hstate : s.sink.state ≠ .ready)
    (hconnected : s.sink.input.isConnected = true)
    (hopen : (s.portsOf s.sink.input).checkFinished.1 = false)
    (hfirst : spurious = 0 → garbage ≠ s.word) :
    ∃ s', exec (iSinkPrepare garbage spurious spurious') s = (.ok (), s') ∧
      s'.sink.state = .needData ∧ (s'.portsOf s'.sink.front).hasData = false := by
  have hcached : s.sink.input.isFinished = false := by
    rw [Ports.checkFinished_eq, Bool.or_eq_false_iff] at hopen
    exact hopen.1
  have hasked : exec inputIsFinished s =
      (.ok false, s.putInput (s.portsOf s.sink.input).checkFinished.2) := by
    simp only [inputIsFinished, exec_bind, exec_get, hcached, Bool.false_eq_true, if_false]
    exact exec_viaInput s _ hconnected (by rw [← hopen])
  have hsame : (s.portsOf s.sink.input).checkFinished.2.state = s.word := by
    unfold Ports.checkFinished
    split <;> rfl
  set s₁ := s.putInput (s.portsOf s.sink.input).checkFinished.2
  have hneeded := exec_viaInput s₁ (fun p => some ((), p.setNeeded garbage spurious)) hconnected rfl
  set s₂ := s₁.putInput ((s₁.portsOf s₁.sink.input).setNeeded garbage spurious)
  have hword : s₂.word = Flag.isNeeded ||| (s₁.word &&& ptrMask) :=
    setFlags_eq Flag.isNeeded (by decide) (by rw [← hsame] at hfirst; exact hfirst)
  have hidle : (s₂.portsOf s₂.sink.input).hasData = false := hasData_asked hword
  have hlooked := exec_viaInput s₂ (fun p => some (p.hasData, p)) hconnected rfl
  rw [hidle] at hlooked
  refine ⟨(s₂.putInput (s₂.portsOf s₂.sink.input)).setState .needData, ?_, rfl, hasData_asked hword⟩
  simp only [iSinkPrepare, exec_bind, exec_get, hstate, if_false, hasked]
  simp [hneeded, hlooked, exec_bind]

/-- **`Work` consumes nothing**: the chunk stays where it is, the status is OK, and the sink is no
longer ready. -/
theorem exec_work [Inhabited D] (cls : SinkClass D κ) (s : SinkSystem D κ) :
    exec (work cls) s = (.ok (), s.setState .initialized) := rfl

namespace SinkSystem

/-- So `Work` never does what it owes. -/
theorem workDelivers_iff [Inhabited D] (cls : SinkClass D κ) (s : SinkSystem D κ) :
    WorkDelivers cls s ↔ s.sink.state ≠ .ready := by
  constructor
  · intro h hready
    have hconsumed := (h hready).1
    rw [exec_work] at hconsumed
    simp [setState] at hconsumed
  · intro h hready
    exact absurd hready h

/-! ## Delivery -/

/-- A sink right after its connection, and whatever has been closed since: nothing can be pushed
and there is nothing to work on. -/
structure Idle (s : SinkSystem D κ) : Prop where
  canPush : (s.portsOf s.sink.front).canPush = false
  hasData : (s.portsOf s.sink.front).hasData = false
  state : s.sink.state ≠ .ready
  pushed : s.pushed = []
  consumed : s.consumed = []

theorem Idle.prepare {s : SinkSystem D κ} (h : s.Idle) {call : SinkCall D} (hallowed : s.Allowed call) :
    ∃ garbage spurious spurious', call = .prepare garbage spurious spurious' := by
  cases call with
  | push d spurious =>
    rw [Allowed, h.canPush] at hallowed
    cases hallowed
  | prepare garbage spurious spurious' => exact ⟨_, _, _, rfl⟩
  | work => exact absurd hallowed h.state

variable [Inhabited D] {cls : SinkClass D κ} {s : SinkSystem D κ}

theorem Idle.of_connect {word : Word} (hword : Allocated word) (frontData inputData output : Word)
    (heap : Word → D) (fields : κ) :
    ((Sink.new frontData inputData fields).connect word output heap).Idle where
  canPush := by
    rw [Ports.canPush_eq]
    show (word.getLsbD 1 && _) = false
    rw [getLsbD_of_aligned hword.aligned (by omega), Bool.false_and]
  hasData := by
    rw [Ports.hasData_eq]
    exact getLsbD_of_aligned hword.aligned (by omega)
  state := by simp [Sink.connect, Sink.new]
  pushed := rfl
  consumed := rfl

theorem Idle.accounted (h : s.Idle) :
    s.pushed = s.consumed ++ s.pending ∧ WorkDelivers cls s := by
  refine ⟨?_, (workDelivers_iff cls s).mpr h.state⟩
  rw [pending, h.pushed, h.consumed, h.hasData, if_neg (fun hready => h.state hready.1)]
  rfl

/-- A `NullSink` stays idle. -/
theorem Idle.step_nullSink (h : s.Idle) (hcls : cls.prepareOf = .nullSink) {call : SinkCall D}
    (hallowed : s.Allowed call) : ∃ s', step cls s call = some s' ∧ s'.Idle := by
  obtain ⟨garbage, spurious, spurious', rfl⟩ := h.prepare hallowed
  refine ⟨_, by simp [step, hcls, after, nullSinkPrepare]; rfl, ?_⟩
  exact ⟨h.canPush, h.hasData, by simp, h.pushed, h.consumed⟩

/-- **When a connected sink delivers**: when its class has a `Prepare` of its own, as `NullSink`, or
no `Prepare` is ever called. In neither case is there anything to deliver: nothing else asks for
data, and an output port that is not asked cannot push. And whatever brought a sink to `Ready`, its
`Work` does not deliver.

What fails first is `Prepare`, which goes through the null `state_` of a port that is not the
connected one. The second part is there because that is not the only thing to repair: `Work` drops
the chunk of a sink in whatever state the rest of the system is. -/
theorem delivers_iff (cls : SinkClass D κ) {word : Word} (hword : Allocated word)
    (frontData inputData output : Word) (heap : Word → D) (fields : κ) (calls : List (SinkCall D))
    (hallowed : Along (step cls) Allowed
      ((Sink.new frontData inputData fields).connect word output heap) calls) :
    (Delivers cls ((Sink.new frontData inputData fields).connect word output heap) calls ↔
      cls.prepareOf = .nullSink ∨
        ∀ garbage spurious spurious', .prepare garbage spurious spurious' ∉ calls) ∧
    ∀ s : SinkSystem D κ, WorkDelivers cls s ↔ s.sink.state ≠ .ready := by
  have hidle : ((Sink.new frontData inputData fields).connect word output heap).Idle :=
    .of_connect hword frontData inputData output heap fields
  refine ⟨⟨fun h => ?_, ?_⟩, workDelivers_iff cls⟩
  · cases hcls : cls.prepareOf with
    | nullSink => exact .inl rfl
    | iSink =>
      refine .inr fun garbage spurious spurious' hmem => ?_
      -- The first call is a `Prepare`, and there is no state after it.
      cases calls with
      | nil => cases hmem
      | cons call rest =>
        obtain ⟨garbage, spurious, spurious', rfl⟩ := hidle.prepare (Along.cons_iff.mp hallowed).1
        obtain ⟨s', hrun, -⟩ := h [.prepare garbage spurious spurious'] ⟨rest, rfl⟩
        have hnull : exec (iSinkPrepare garbage spurious spurious') _ = _ :=
          exec_iSinkPrepare_null hidle.state rfl rfl
        simp only [runSteps, step, hcls, after, hnull] at hrun
        cases hrun
  · rintro (hcls | hnone)
    · intro pre hpre
      obtain ⟨s', hrun, hs'⟩ := Along.run_inv (I := Idle)
        (fun s call hs hcall => hs.step_nullSink hcls hcall) hidle (hallowed.initial hpre)
      exact ⟨s', hrun, hs'.accounted⟩
    · cases calls with
      | nil =>
        intro pre hpre
        obtain rfl := List.prefix_nil.mp hpre
        exact ⟨_, rfl, hidle.accounted⟩
      | cons call rest =>
        obtain ⟨garbage, spurious, spurious', rfl⟩ := hidle.prepare (Along.cons_iff.mp hallowed).1
        exact absurd List.mem_cons_self (hnone garbage spurious spurious')

/-- `EmptySink`, over chunks that are numbers: it takes everything. -/
def emptySink : SinkClass Nat Unit := ⟨fun _ _ => (.ok (), ()), .iSink⟩

def nullSink : SinkClass Nat Unit := { emptySink with prepareOf := .nullSink }

/-- A `NullSink` is prepared again and again. -/
theorem delivers_nullSink :
    Delivers nullSink ((Sink.new 16 32 ()).connect 48 64 fun _ => 0)
      [.prepare 0 0 0, .prepare 0 0 0] :=
  (delivers_iff nullSink (show Allocated 48 from ⟨by decide, by decide⟩) 16 32 64 (fun _ => 0) ()
    [.prepare 0 0 0, .prepare 0 0 0] (by simp [Along, Allowed, step, after, nullSinkPrepare,
      nullSink])).1.mpr (.inl rfl)

/-- The first `Prepare` of an `EmptySink` has no outcome. -/
theorem not_delivers_emptySink :
    ¬ ∀ calls : List (SinkCall Nat),
      Along (step emptySink) Allowed ((Sink.new 16 32 ()).connect 48 64 fun _ => 0) calls →
      Delivers emptySink ((Sink.new 16 32 ()).connect 48 64 fun _ => 0) calls := by
  intro hall
  obtain ⟨s', hrun, -⟩ := hall [.prepare 0 0 0] (by simp [Along, Allowed]; split <;> trivial) _
    (List.prefix_refl _)
  have hnull : exec (iSinkPrepare 0 0 0) ((Sink.new 16 32 ()).connect 48 64 fun _ => 0) =
      (.error .undefined, (Sink.new 16 32 ()).connect (D := Nat) 48 64 fun _ => 0) :=
    exec_iSinkPrepare_null (by simp [Sink.connect, Sink.new]) rfl rfl
  simp only [runSteps, step, emptySink, after, hnull] at hrun
  cases hrun

end SinkSystem

end CxxLab.CkLab
