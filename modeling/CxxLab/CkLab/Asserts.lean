import CxxLab.CkLab.Port

/-!
# The assertions of `State::Push` and `State::Pull`

Both exchange a buffer for the one in the word and assert something of the flags they found there.
`Push` must have found no data. `Pull` must have found `IS_NEEDED`, unless it is to clear it, and
data; but it says so with `assert(flags & HAS_DATA != 0)`, in which `!=` binds tighter than `&`.
What the second assertion asks for is `flags & true`, and that is `IS_FINISHED`.

What a party saw before its call and what the exchange finds may differ. Here looking and calling
are steps of their own, and the other party may take any number of steps in between; that the
exchange itself is one step is `Exchange.lean`. `SetFlags` is taken to change the bits of its mask
and no others; `Port.lean` has what it does.
-/

set_option autoImplicit false

namespace CxxLab.CkLab

open CxxLab.Lib

/-- `State::SetFlags` as it is meant: the word stored. -/
def setFlagsExactly (value flags mask : Word) : Word :=
  (value &&& flagsMask &&& ~~~mask) ||| flags ||| (value &&& ptrMask)

/-- A truth value as an operand of `&`. -/
def ofTruth (b : Bool) : Word := if b then 1#64 else 0#64

/-- The assertion of `State::Push`. -/
def PushAsserted (flags : Word) : Prop := flags &&& Flag.hasData = 0#64

/-- The two assertions of `State::Pull`, with the second read as it parses. -/
def PullAsserted (flags : Word) (notNeeded : Bool) : Prop :=
  ¬(flags &&& Flag.isNeeded = 0#64 ∧ notNeeded = false) ∧
    flags &&& ofTruth (Flag.hasData != 0#64) ≠ 0#64

instance (flags : Word) : Decidable (PushAsserted flags) :=
  inferInstanceAs (Decidable (flags &&& Flag.hasData = 0#64))

instance (flags : Word) (notNeeded : Bool) : Decidable (PullAsserted flags notNeeded) :=
  inferInstanceAs (Decidable (¬(flags &&& Flag.isNeeded = 0#64 ∧ notNeeded = false) ∧
    flags &&& ofTruth (Flag.hasData != 0#64) ≠ 0#64))

namespace Ports

variable {D : Type}

/-- The flags `State::Push` gets from the exchange. -/
def pushFlags (p : Ports D) (spurious : Nat) : Word :=
  (swap p.state p.output Flag.hasData Flag.hasData spurious).2.2

/-- The flags `State::Pull` gets from the exchange. -/
def pullFlags (p : Ports D) (notNeeded : Bool) (spurious : Nat) : Word :=
  let mask := if notNeeded then Flag.hasData ||| Flag.isNeeded else Flag.hasData
  (swap p.state p.input 0 mask spurious).2.2

/-- `OutputPort::IsFinished`. -/
def outputFinished (p : Ports D) : Bool := p.getFlags &&& Flag.isFinished != 0#64

/-- `InputPort::Reopen`. -/
def reopen (p : Ports D) : Ports D :=
  let (finished, p) := p.checkFinished
  if finished then
    { p with state := setFlagsExactly p.state 0 Flag.isFinished, isFinished := false }
  else p

end Ports

/-- A call on one of the ports, or a look at the word before one. -/
inductive GuardedStep (D : Type) where
  | canPush
  | push (d : D) (spurious : Nat)
  | finish
  /-- The consumer looks for data, and for `IS_NEEDED`. -/
  | look
  | pull (notNeeded : Bool) (spurious : Nat)
  | setNeeded
  | setNotNeeded
  | checkFinished
  | close
  | reopen

/-- A pair of ports and what the two parties have seen of it. -/
structure Guarded (D : Type) where
  ports : Ports D
  /-- The last `CanPush` since the last `Push` was true. -/
  ready : Bool
  /-- The last look since the last `Pull` or `SetNotNeeded` found data and `IS_NEEDED`. -/
  seen : Bool
  /-- `Finish` has been called. -/
  closed : Bool

namespace Guarded

variable {D : Type}

def step [Inhabited D] (s : Guarded D) : GuardedStep D → Option (Guarded D)
  | .canPush => some { s with ready := s.ports.canPush }
  | .push d spurious => do
    let ports ← s.ports.push d spurious
    return { s with ports := ports, ready := false }
  | .finish =>
    let state := setFlagsExactly s.ports.state Flag.isFinished Flag.isFinished
    some { s with ports := { s.ports with state := state }, closed := true }
  | .look =>
    some { s with seen := s.ports.hasData && s.ports.getFlags &&& Flag.isNeeded != 0#64 }
  | .pull notNeeded spurious => do
    let (_, ports) ← s.ports.pull notNeeded spurious
    return { s with ports := ports, seen := false }
  | .setNeeded =>
    let state := setFlagsExactly s.ports.state Flag.isNeeded Flag.isNeeded
    some { s with ports := { s.ports with state := state } }
  | .setNotNeeded =>
    let state := setFlagsExactly s.ports.state 0 Flag.isNeeded
    some { s with ports := { s.ports with state := state }, seen := false }
  | .checkFinished => some { s with ports := s.ports.checkFinished.2 }
  | .close => some { s with ports := { s.ports with isFinished := true } }
  | .reopen => some { s with ports := s.ports.reopen }

/-- When the two parties may take a step: the producer pushes once for each `CanPush`, and not after
`Finish`, which it calls once; the consumer pulls what it has seen, or with `set_not_needed`. -/
def Protocol (s : Guarded D) : GuardedStep D → Prop
  | .push _ _ => s.ready = true ∧ s.closed = false
  | .finish => s.closed = false
  | .pull notNeeded _ => s.seen = true ∨ notNeeded = true
  | _ => True

/-- The assertions made in the step hold. -/
def Asserted (s : Guarded D) : GuardedStep D → Prop
  | .push _ spurious => PushAsserted (s.ports.pushFlags spurious)
  | .pull notNeeded spurious => PullAsserted (s.ports.pullFlags notNeeded spurious) notNeeded
  | _ => True

/-- A pull comes after the end: `OutputPort::IsFinished` holds. -/
def PullsFinished (s : Guarded D) : GuardedStep D → Prop
  | .pull _ _ => s.ports.outputFinished = true
  | _ => True

/-- A pair right after `Connect`, over three allocations. -/
def connect (state output input : Word) (heap : Word → D) : Guarded D :=
  { ports := { state := state, output := output, input := input, heap := heap, isFinished := false }
    ready := false, seen := false, closed := false }

end Guarded

/-! ## The word the calls leave -/

/-- The pointers of a pair are real. -/
structure Ports.Real {D : Type} (p : Ports D) : Prop where
  output : Allocated p.output
  input : Allocated p.input
  state_ne : p.state &&& ptrMask ≠ 0#64

namespace Ports

variable {D : Type} {p : Ports D}

theorem getLsbD_setFlagsExactly (value flags mask : Word) {k : Nat} (hk : k < 3) :
    (setFlagsExactly value flags mask).getLsbD k =
      ((value.getLsbD k && !mask.getLsbD k) || flags.getLsbD k) :=
  getLsbD_swapped (and_ptrMask_and_flagsMask value) hk

theorem Real.setFlags (h : p.Real) {flags : Word} (mask : Word) (hflags : flags &&& ptrMask = 0#64)
    (finished : Bool) : Ports.Real
      { p with state := setFlagsExactly p.state flags mask, isFinished := finished } where
  output := h.output
  input := h.input
  state_ne := by
    rw [setFlagsExactly, ptr_swapped p.state flags mask hflags (and_ptrMask_and_flagsMask p.state)]
    exact h.state_ne

/-- `Push` leaves the word with data in it. -/
theorem Real.push (h : p.Real) (d : D) (spurious : Nat) :
    ∃ p', p.push d spurious = some p' ∧ p'.Real ∧
      p'.state.getLsbD 1 = p.state.getLsbD 1 ∧ p'.state.getLsbD 2 = true := by
  refine ⟨_, push_eq h.output.ne_null d spurious, ?_, ?_, ?_⟩
  · exact {
      output := allocated_swapped h.state_ne
      input := h.input
      state_ne := by
        rw [ptr_swapped p.state Flag.hasData Flag.hasData (by decide) h.output.aligned]
        exact h.output.ne_null }
  · rw [getLsbD_swapped h.output.aligned (by omega)]
    simp [Flag.hasData]
  · rw [getLsbD_swapped h.output.aligned (by omega)]
    simp [Flag.hasData]

/-- `Pull` leaves it with none. -/
theorem Real.pull [Inhabited D] (h : p.Real) (notNeeded : Bool) (spurious : Nat) :
    ∃ d p', p.pull notNeeded spurious = some (d, p') ∧ p'.Real ∧ p'.state.getLsbD 2 = false := by
  obtain ⟨mask, hbit, hpull⟩ := pull_eq h.state_ne notNeeded spurious
  refine ⟨_, _, hpull, ?_, ?_⟩
  · exact {
      output := h.output
      input := allocated_swapped h.state_ne
      state_ne := by
        rw [ptr_swapped p.state 0#64 mask (by decide) h.input.aligned]
        exact h.input.ne_null }
  · rw [getLsbD_swapped h.input.aligned (by omega), hbit]
    simp

/-! ## The assertions -/

/-- What `Push` asserts is that the word it finds has no data. -/
theorem pushAsserted_iff (p : Ports D) (spurious : Nat) :
    PushAsserted (p.pushFlags spurious) ↔ p.state.getLsbD 2 = false := by
  rw [PushAsserted, pushFlags, swap_eq, ← p.hasData_eq, Ports.hasData, bne_eq_false_iff_eq]
  rfl

/-- What `Pull` asserts of the word it finds, of `IS_NEEDED` and of `IS_FINISHED`. -/
theorem pullAsserted_iff (p : Ports D) (notNeeded : Bool) (spurious : Nat) :
    PullAsserted (p.pullFlags notNeeded spurious) notNeeded ↔
      (p.state.getLsbD 1 = true ∨ notNeeded = true) ∧ p.outputFinished = true := by
  have hflags : p.pullFlags notNeeded spurious = p.getFlags := by
    rw [pullFlags, swap_eq]
    rfl
  have hneeded : (p.getFlags &&& Flag.isNeeded != 0#64) = p.state.getLsbD 1 :=
    test_flag p.state (by omega) (by decide) (by decide)
  rw [PullAsserted, hflags, show ofTruth (Flag.hasData != 0#64) = Flag.isFinished by decide,
    outputFinished, bne_iff_ne, ← hneeded, bne_iff_ne]
  refine and_congr_left fun _ => ?_
  rw [not_and_or, Bool.not_eq_false]

end Ports

namespace Guarded

variable {D : Type}

/-- What every step keeps: what a party has seen is still so. -/
structure Inv (s : Guarded D) : Prop where
  real : s.ports.Real
  ready : s.ready = true → s.ports.state.getLsbD 2 = false
  seen : s.seen = true → s.ports.state.getLsbD 1 = true ∧ s.ports.state.getLsbD 2 = true

theorem Inv.of_connect {state output input : Word} (heap : Word → D) (hs : Allocated state)
    (ho : Allocated output) (hi : Allocated input) : (connect state output input heap).Inv where
  real := {
    output := ho
    input := hi
    state_ne := by
      rw [show (connect state output input heap).ports.state = state from rfl,
        and_ptrMask_of_aligned hs.aligned]
      exact hs.ne_null }
  ready := by simp [connect]
  seen := by simp [connect]

/-- A call of `SetFlags`, which leaves `HAS_DATA` alone. Clearing `IS_NEEDED` is the consumer's own
doing, and it has to look again. -/
theorem Inv.setFlags {s : Guarded D} (h : s.Inv) {flags mask : Word} {finished seen closed : Bool}
    (hflags : flags &&& ptrMask = 0#64) (hmask : mask.getLsbD 2 = false)
    (hdata : flags.getLsbD 2 = false)
    (hseen : seen = true → s.seen = true ∧ (mask.getLsbD 1 = false ∨ flags.getLsbD 1 = true)) :
    Guarded.Inv { s with
      ports := { s.ports with
        state := setFlagsExactly s.ports.state flags mask, isFinished := finished }
      seen := seen, closed := closed } := by
  have hkept : (setFlagsExactly s.ports.state flags mask).getLsbD 2 = s.ports.state.getLsbD 2 := by
    rw [Ports.getLsbD_setFlagsExactly _ _ _ (by omega), hmask, hdata]
    simp
  exact {
    real := h.real.setFlags mask hflags finished
    ready := fun hready => hkept.trans (h.ready hready)
    seen := by
      intro hs
      obtain ⟨hbefore, hbit⟩ := hseen hs
      obtain ⟨hneeded, hfull⟩ := h.seen hbefore
      refine ⟨?_, hkept.trans hfull⟩
      rw [Ports.getLsbD_setFlagsExactly _ _ _ (by omega), hneeded]
      rcases hbit with hbit | hbit
      · rw [hbit]; rfl
      · rw [hbit, Bool.or_true] }

/-- `IsFinished` and `Close` of the input port touch nothing but its `is_finished_`. -/
theorem Inv.setFinished {s : Guarded D} (h : s.Inv) (finished : Bool) :
    Guarded.Inv { s with ports := { s.ports with isFinished := finished } } where
  real := { output := h.real.output, input := h.real.input, state_ne := h.real.state_ne }
  ready := h.ready
  seen := h.seen

theorem Inv.reopen {s : Guarded D} (h : s.Inv) :
    Guarded.Inv { s with ports := s.ports.reopen } := by
  unfold Ports.reopen
  rw [Ports.checkFinished_shape]
  dsimp only
  split
  · exact h.setFlags (by decide) (by decide) (by decide) fun hs => ⟨hs, Or.inl (by decide)⟩
  · exact h.setFinished _

/-- **One step** of the protocol, of either party. -/
theorem Inv.step [Inhabited D] (s : Guarded D) (a : GuardedStep D) (h : s.Inv)
    (hproto : s.Protocol a) : ∃ s', s.step a = some s' ∧ s'.Inv := by
  cases a with
  | canPush =>
    -- The answer is about the word as it is now.
    refine ⟨_, rfl, h.real, ?_, h.seen⟩
    intro hready
    have hcan : s.ports.canPush = true := hready
    rw [Ports.canPush_eq, Bool.and_eq_true, Bool.not_eq_true'] at hcan
    exact hcan.2
  | push d spurious =>
    obtain ⟨p', hpush, hreal, hneeded, hfull⟩ := h.real.push d spurious
    refine ⟨{ s with ports := p', ready := false }, by simp [Guarded.step, hpush], hreal,
      (fun hs => by cases hs), ?_⟩
    -- A push leaves `IS_NEEDED`, so what the consumer has seen stays so.
    intro hseen
    exact ⟨hneeded.trans (h.seen hseen).1, hfull⟩
  | finish =>
    exact ⟨_, rfl, h.setFlags (by decide) (by decide) (by decide)
      fun hs => ⟨hs, Or.inl (by decide)⟩⟩
  | look =>
    refine ⟨_, rfl, h.real, h.ready, ?_⟩
    intro hseen
    have hlook : (s.ports.hasData && s.ports.getFlags &&& Flag.isNeeded != 0#64) = true := hseen
    have hneeded : (s.ports.getFlags &&& Flag.isNeeded != 0#64) = s.ports.state.getLsbD 1 :=
      test_flag s.ports.state (by omega) (by decide) (by decide)
    rw [Bool.and_eq_true, hneeded, Ports.hasData_eq] at hlook
    exact hlook.symm
  | pull notNeeded spurious =>
    obtain ⟨d, p', hpull, hreal, hempty⟩ := h.real.pull notNeeded spurious
    -- The word is empty, which is what a producer has seen that is ready.
    exact ⟨{ s with ports := p', seen := false }, by simp [Guarded.step, hpull], hreal,
      fun _ => hempty, fun hs => by cases hs⟩
  | setNeeded =>
    exact ⟨_, rfl, h.setFlags (by decide) (by decide) (by decide)
      fun hs => ⟨hs, Or.inr (by decide)⟩⟩
  | setNotNeeded =>
    exact ⟨_, rfl, h.setFlags (by decide) (by decide) (by decide) fun hs => by cases hs⟩
  | checkFinished =>
    refine ⟨_, rfl, ?_⟩
    rw [Ports.checkFinished_shape]
    exact h.setFinished _
  | close => exact ⟨_, rfl, h.setFinished true⟩
  | reopen => exact ⟨_, rfl, h.reopen⟩

/-- The assertions of a step hold, except that a `Pull` asks for the end of the data. -/
theorem Inv.asserted_iff {s : Guarded D} {a : GuardedStep D} (h : s.Inv) (hproto : s.Protocol a) :
    s.Asserted a ↔ s.PullsFinished a := by
  cases a with
  | push d spurious =>
    exact iff_of_true ((Ports.pushAsserted_iff s.ports spurious).mpr (h.ready hproto.1)) trivial
  | pull notNeeded spurious =>
    have hneeded : s.ports.state.getLsbD 1 = true ∨ notNeeded = true :=
      hproto.imp_left fun hseen => (h.seen hseen).1
    exact (Ports.pullAsserted_iff s.ports notNeeded spurious).trans (and_iff_right hneeded)
  | canPush | finish | look | setNeeded | setNotNeeded | checkFinished | close | reopen => exact Iff.rfl

theorem exists_run [Inhabited D] {state output input : Word} (heap : Word → D)
    (hs : Allocated state) (ho : Allocated output) (hi : Allocated input)
    (steps : List (GuardedStep D))
    (hproto : Along step Protocol (connect state output input heap) steps) :
    ∃ s, runSteps step (connect state output input heap) steps = some s := by
  obtain ⟨s, hrun, -⟩ := Along.run_inv (I := Inv) Inv.step (Inv.of_connect heap hs ho hi) hproto
  exact ⟨s, hrun⟩

/-- **The assertions hold in a run of the protocol exactly if every `Pull` of it comes after
`IS_FINISHED` was set**, from any three allocations.

The assertion of `Pull` that there is data says something else, because `!=` binds tighter than `&`:
it asks for `IS_FINISHED`. The others hold in every run of the protocol, whatever a party has seen
before and whatever the other one has done since, which is what the invariant is for. -/
theorem run_asserts_iff [Inhabited D] {state output input : Word} (heap : Word → D)
    (hs : Allocated state) (ho : Allocated output) (hi : Allocated input)
    (steps : List (GuardedStep D))
    (hproto : Along step Protocol (connect state output input heap) steps) :
    Along step Asserted (connect state output input heap) steps ↔
      Along step PullsFinished (connect state output input heap) steps :=
  Along.congr_inv (I := Inv) Inv.step (fun _ _ h hproto => h.asserted_iff hproto)
    (Inv.of_connect heap hs ho hi) hproto

instance (s : Guarded D) : ∀ a, Decidable (s.Protocol a)
  | .push _ _ => inferInstanceAs (Decidable (s.ready = true ∧ s.closed = false))
  | .finish => inferInstanceAs (Decidable (s.closed = false))
  | .pull notNeeded _ => inferInstanceAs (Decidable (s.seen = true ∨ notNeeded = true))
  | .canPush | .look | .setNeeded | .setNotNeeded | .checkFinished | .close | .reopen => .isTrue trivial

instance (s : Guarded D) : ∀ a, Decidable (s.Asserted a)
  | .push _ spurious => inferInstanceAs (Decidable (PushAsserted (s.ports.pushFlags spurious)))
  | .pull notNeeded spurious =>
    inferInstanceAs (Decidable (PullAsserted (s.ports.pullFlags notNeeded spurious) notNeeded))
  | .canPush | .finish | .look | .setNeeded | .setNotNeeded | .checkFinished | .close | .reopen =>
    .isTrue trivial

instance (s : Guarded D) : ∀ a, Decidable (s.PullsFinished a)
  | .pull _ _ => inferInstanceAs (Decidable (s.ports.outputFinished = true))
  | .canPush | .push _ _ | .finish | .look | .setNeeded | .setNotNeeded | .checkFinished | .close
  | .reopen => .isTrue trivial

/-- One datum, and the end right after it. -/
def lastDatum : List (GuardedStep Nat) :=
  [.setNeeded, .canPush, .push 1 0, .finish, .look, .pull true 1, .checkFinished, .reopen]

theorem run_asserts_lastDatum : Along step Asserted (connect 16 32 48 fun _ => 0) lastDatum :=
  (run_asserts_iff (fun _ => 0) ⟨by decide, by decide⟩ ⟨by decide, by decide⟩
    ⟨by decide, by decide⟩ lastDatum (by decide +kernel)).mpr (by decide +kernel)

/-- One datum, pulled while more may come: `Pull` finds it, and `IS_NEEDED`, and fails its
assertion. -/
def firstDatum : List (GuardedStep Nat) := [.setNeeded, .canPush, .push 1 0, .look, .pull false 0]

theorem not_asserted_firstDatum :
    ¬ ∀ steps : List (GuardedStep Nat),
      Along step Protocol (connect 16 32 48 fun _ => 0) steps →
      Along step Asserted (connect 16 32 48 fun _ => 0) steps := by
  intro hall
  exact absurd (hall firstDatum (by decide +kernel)) (by decide +kernel)

end Guarded

end CxxLab.CkLab
