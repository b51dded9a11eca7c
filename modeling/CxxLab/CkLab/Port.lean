import CxxLab.Lib.Run
import Mathlib.Logic.Function.Basic

/-!
# `ck_lab/Port.h` — a port pair over one atomic word

An `OutputPort` and an `InputPort` that `Connect` has joined share a `State`: one atomic word with
a pointer to a `Data` in its upper bits and three flags in the lowest. Each of the two ports has a
`Data` of its own, and `Push` and `Pull` exchange theirs for the one in the word, so three buffers
go round.

Words are 64-bit vectors and the memory behind the pointers is a function. Every update of the
word is a loop around `compare_exchange_weak`, which may fail though the word is as expected;
how often it does is a parameter of the step, and so is the value of `expected` in `SetFlags`,
which the code leaves uninitialised. A write through a null pointer has no result.

`SetFlags` is meant to change the bits of its mask. It masks with `!mask`, the logical negation,
and `!mask` of a mask with a bit in it is 0: the flags outside the mask are cleared as well, and
among them `HAS_DATA`.
-/

set_option autoImplicit false

namespace CxxLab.CkLab

open CxxLab.Lib

/-- `std::uintptr_t`. -/
abbrev Word := BitVec 64

/-! ## The flags -/

namespace Flag

/-- `State::IS_FINISHED`. -/
def isFinished : Word := 1 <<< 0

/-- `State::IS_NEEDED`. -/
def isNeeded : Word := 1 <<< 1

/-- `State::HAS_DATA`. -/
def hasData : Word := 1 <<< 2

end Flag

/-- `State::FLAGS_MASK`. -/
def flagsMask : Word := Flag.isFinished ||| Flag.isNeeded ||| Flag.hasData

/-- `State::PTR_MASK`. -/
def ptrMask : Word := ~~~flagsMask

/-- `!w`, converted back to a word. -/
def logicalNot (w : Word) : Word := if w = 0#64 then 1#64 else 0#64

/-! ## Updates of the word -/

/-- `while (!value.compare_exchange_weak(expected, desired)) desired = next(expected);` with this
many spurious failures. A failed attempt loads the word into `expected`, so the one after it
succeeds unless it fails spuriously too. The result is the word stored and `expected`. -/
def exchangeLoop (value : Word) (next : Word → Word) : Nat → Word → Word → Word × Word
  | 0, expected, desired => if value = expected then (desired, expected) else (next value, value)
  | spurious + 1, _, _ => exchangeLoop value next spurious value (next value)

/-- `DataPtr::Swap`: the word stored, the pointer left in `data_` and the flags found. -/
def swap (value data flags mask : Word) (spurious : Nat) : Word × Word × Word :=
  let (stored, expected) := exchangeLoop value
    (fun expected => (expected &&& flagsMask &&& ~~~mask) ||| flags ||| data) spurious 0
    (flags ||| data)
  (stored, expected &&& ptrMask, expected &&& flagsMask)

/-- `State::SetFlags`: the word stored. `garbage` is what `expected` happens to hold. -/
def setFlags (value flags mask garbage : Word) (spurious : Nat) : Word :=
  (exchangeLoop value
    (fun expected =>
      (expected &&& flagsMask &&& logicalNot mask) ||| flags ||| (expected &&& ptrMask))
    spurious garbage flags).1

/-! ## The pair -/

/-- A connected pair of ports, with the memory behind the three pointers. -/
structure Ports (D : Type) where
  /-- `State::data_`. -/
  state : Word
  /-- `OutputPort::data_`. -/
  output : Word
  /-- `InputPort::data_`. -/
  input : Word
  heap : Word → D
  /-- `InputPort::is_finished_`. -/
  isFinished : Bool

namespace Ports

variable {D : Type}

/-- `State::GetFlags`. -/
def getFlags (p : Ports D) : Word := p.state &&& flagsMask

/-- `Port::HasData`. -/
def hasData (p : Ports D) : Bool := p.getFlags &&& Flag.hasData != 0#64

/-- `OutputPort::CanPush`. -/
def canPush (p : Ports D) : Bool :=
  p.getFlags &&& Flag.isNeeded != 0#64 && p.getFlags &&& Flag.hasData == 0#64

/-- `OutputPort::Push`. -/
def push (p : Ports D) (d : D) (spurious : Nat) : Option (Ports D) :=
  if p.output = 0#64 then none
  else
    let (state, output, _) := swap p.state p.output Flag.hasData Flag.hasData spurious
    some { p with heap := Function.update p.heap p.output d, state := state, output := output }

/-- `OutputPort::Finish`. -/
def finish (p : Ports D) (garbage : Word) (spurious : Nat) : Ports D :=
  { p with state := setFlags p.state Flag.isFinished Flag.isFinished garbage spurious }

/-- `InputPort::SetNeeded`. -/
def setNeeded (p : Ports D) (garbage : Word) (spurious : Nat) : Ports D :=
  { p with state := setFlags p.state Flag.isNeeded Flag.isNeeded garbage spurious }

/-- `InputPort::SetNotNeeded`. -/
def setNotNeeded (p : Ports D) (garbage : Word) (spurious : Nat) : Ports D :=
  { p with state := setFlags p.state 0 Flag.isNeeded garbage spurious }

/-- `InputPort::Pull`: what is returned is moved out of the buffer. -/
def pull [Inhabited D] (p : Ports D) (notNeeded : Bool) (spurious : Nat) : Option (D × Ports D) :=
  let mask := if notNeeded then Flag.hasData ||| Flag.isNeeded else Flag.hasData
  let (state, input, flags) := swap p.state p.input 0 mask spurious
  if input = 0#64 then none
  else
    some (p.heap input,
      { p with heap := Function.update p.heap input default, state := state, input := input,
               isFinished := flags &&& Flag.isFinished != 0#64 })

/-- `InputPort::IsFinished`, which remembers a positive answer. -/
def checkFinished (p : Ports D) : Bool × Ports D :=
  if p.isFinished then (true, p)
  else
    let b := p.getFlags &&& Flag.isFinished != 0#64 && p.getFlags &&& Flag.hasData == 0#64
    (b, { p with isFinished := b })

end Ports

/-! ## Runs of the protocol -/

/-- A call on one of the two ports, with everything that is not up to the caller. -/
inductive PortStep (D : Type) where
  | push (d : D) (spurious : Nat)
  | finish (garbage : Word) (spurious : Nat)
  | setNeeded (garbage : Word) (spurious : Nat)
  | setNotNeeded (garbage : Word) (spurious : Nat)
  | pull (notNeeded : Bool) (spurious : Nat)
  | checkFinished

/-- A pair of ports and what has happened to it. -/
structure Session (D : Type) where
  ports : Ports D
  pushed : List D
  pulled : List D
  /-- `Finish` has been called. -/
  closed : Bool

namespace Session

variable {D : Type}

def step [Inhabited D] (s : Session D) : PortStep D → Option (Session D)
  | .push d spurious => do
    let ports ← s.ports.push d spurious
    return { s with ports := ports, pushed := s.pushed ++ [d] }
  | .finish garbage spurious =>
    some { s with ports := s.ports.finish garbage spurious, closed := true }
  | .setNeeded garbage spurious => some { s with ports := s.ports.setNeeded garbage spurious }
  | .setNotNeeded garbage spurious =>
    some { s with ports := s.ports.setNotNeeded garbage spurious }
  | .pull notNeeded spurious => do
    let (d, ports) ← s.ports.pull notNeeded spurious
    return { s with ports := ports, pulled := s.pulled ++ [d] }
  | .checkFinished => some { s with ports := s.ports.checkFinished.2 }

/-- When the two sides may take a step: the producer pushes when `CanPush` and not after
`Finish`, the consumer pulls when `HasData`. -/
def Protocol (s : Session D) : PortStep D → Prop
  | .push _ _ => s.ports.canPush = true ∧ s.closed = false
  | .pull _ _ => s.ports.hasData = true
  | _ => True

/-- A call of `SetFlags` finds `HAS_DATA` clear, and its first attempt does not succeed on the
uninitialised `expected`. -/
def FlagsIdle (s : Session D) : PortStep D → Prop
  | .finish garbage spurious | .setNeeded garbage spurious | .setNotNeeded garbage spurious =>
    s.ports.hasData = false ∧ (spurious = 0 → garbage ≠ s.ports.state)
  | _ => True

/-- The datum in the word, if there is one. -/
def inFlight (s : Session D) : List D :=
  if s.ports.hasData then [s.ports.heap (s.ports.state &&& ptrMask)] else []

/-- Nothing is lost: what was pulled, and what is in the word, is what was pushed; and the port
counts as finished only when all of it was pulled. -/
structure Lossless (s : Session D) : Prop where
  pulled_prefix : s.pulled <+: s.pushed
  accounted : s.pushed = s.pulled ++ s.inFlight
  finished : s.ports.checkFinished.1 = true → s.pulled = s.pushed

end Session

/-- A pointer as `new` gives it: not null, and with the flag bits clear. -/
structure Allocated (ptr : Word) : Prop where
  ne_null : ptr ≠ 0#64
  aligned : ptr &&& flagsMask = 0#64

/-- A pair right after `Connect`, over three allocations. -/
def Session.connect {D : Type} (state output input : Word) (heap : Word → D) : Session D :=
  { ports := { state := state, output := output, input := input, heap := heap, isFinished := false }
    pushed := [], pulled := [], closed := false }

/-! ## The word as a pointer and flags -/

theorem and_ptrMask_of_aligned {ptr : Word} (h : ptr &&& flagsMask = 0#64) : ptr &&& ptrMask = ptr := by
  have hall : ptr = ptr &&& (flagsMask ||| ptrMask) := by
    rw [show flagsMask ||| ptrMask = BitVec.allOnes 64 by decide, BitVec.and_allOnes]
  rw [BitVec.and_or_distrib_left, h, BitVec.zero_or] at hall
  exact hall.symm

theorem and_flagsMask_and_ptrMask (w : Word) : w &&& flagsMask &&& ptrMask = 0#64 := by
  rw [BitVec.and_assoc, show flagsMask &&& ptrMask = 0#64 by decide, BitVec.and_zero]

theorem and_ptrMask_and_flagsMask (w : Word) : w &&& ptrMask &&& flagsMask = 0#64 := by
  rw [BitVec.and_assoc, show ptrMask &&& flagsMask = 0#64 by decide, BitVec.and_zero]

/-- The pointer in a word made of flags and a pointer. -/
theorem ptr_of_or {flags ptr : Word} (hf : flags &&& ptrMask = 0#64) (hp : ptr &&& flagsMask = 0#64) :
    (flags ||| ptr) &&& ptrMask = ptr := by
  rw [BitVec.and_or_distrib_right, hf, and_ptrMask_of_aligned hp, BitVec.zero_or]

/-- The bit of a flag. -/
theorem test_flag (w : Word) {flag : Word} {k : Nat} (hk : k < 64) (hflag : flag = BitVec.twoPow 64 k)
    (hmask : flagsMask &&& flag = flag) : (w &&& flagsMask &&& flag != 0#64) = w.getLsbD k := by
  rw [BitVec.and_assoc, hmask, hflag, BitVec.and_twoPow]
  cases w.getLsbD k
  · simp
  · have hne : BitVec.twoPow 64 k ≠ 0#64 := by
      intro h
      have hbit := congrArg (fun v => v.getLsbD k) h
      simp [hk] at hbit
    simpa using hne

theorem getLsbD_flagsMask {k : Nat} (hk : k < 3) : flagsMask.getLsbD k = true := by
  rcases k with _ | _ | _ | k
  · decide
  · decide
  · decide
  · omega

theorem getLsbD_of_aligned {ptr : Word} (h : ptr &&& flagsMask = 0#64) {k : Nat} (hk : k < 3) :
    ptr.getLsbD k = false := by
  have hbit := congrArg (fun v => v.getLsbD k) h
  simpa [BitVec.getLsbD_and, getLsbD_flagsMask hk] using hbit

namespace Ports

variable {D : Type} (p : Ports D)

theorem hasData_eq : p.hasData = p.state.getLsbD 2 :=
  test_flag p.state (by omega) (by decide) (by decide)

theorem canPush_eq : p.canPush = (p.state.getLsbD 1 && !p.state.getLsbD 2) := by
  have hneeded : (p.getFlags &&& Flag.isNeeded != 0#64) = p.state.getLsbD 1 :=
    test_flag p.state (by omega) (by decide) (by decide)
  rw [canPush, hneeded, ← hasData_eq, hasData, bne, Bool.not_not]

theorem checkFinished_eq : p.checkFinished.1 =
    (p.isFinished || (p.state.getLsbD 0 && !p.state.getLsbD 2)) := by
  have hfinished : (p.getFlags &&& Flag.isFinished != 0#64) = p.state.getLsbD 0 :=
    test_flag p.state (by omega) (by decide) (by decide)
  unfold checkFinished
  cases hf : p.isFinished
  · simp only [Bool.false_eq_true, if_false, Bool.false_or]
    rw [hfinished, ← hasData_eq, hasData, bne, Bool.not_not]
  · rfl

/-- `IsFinished` changes nothing but the port's `is_finished_`. -/
theorem checkFinished_shape :
    p.checkFinished = (p.checkFinished.1, { p with isFinished := p.checkFinished.1 }) := by
  unfold checkFinished
  cases hc : p.isFinished
  · rfl
  · simp [hc.symm]

end Ports

/-! ## What the updates store -/

/-- Whichever attempt succeeds, the loop stores the word computed from the one it found, if that
is also what the first attempt would store. -/
theorem exchangeLoop_eq {value : Word} {next : Word → Word} :
    ∀ (spurious : Nat) {expected desired : Word},
      (spurious = 0 → value = expected → desired = next value) →
      exchangeLoop value next spurious expected desired = (next value, value) := by
  intro spurious
  induction spurious with
  | zero =>
    intro expected desired h
    rw [exchangeLoop]
    split
    · rename_i heq
      rw [h rfl heq, heq]
    · rfl
  | succ n ih =>
    intro expected desired _
    rw [exchangeLoop]
    exact ih fun _ _ => rfl

theorem swap_eq (value data flags mask : Word) (spurious : Nat) :
    swap value data flags mask spurious =
      ((value &&& flagsMask &&& ~~~mask) ||| flags ||| data, value &&& ptrMask,
        value &&& flagsMask) := by
  rw [swap, exchangeLoop_eq spurious]
  rintro - rfl
  simp

namespace Ports

variable {D : Type} {p : Ports D}

/-- `Push` with a real buffer. -/
theorem push_eq (h : p.output ≠ 0#64) (d : D) (spurious : Nat) : p.push d spurious = some
    { p with
      heap := Function.update p.heap p.output d
      state := (p.state &&& flagsMask &&& ~~~Flag.hasData) ||| Flag.hasData ||| p.output
      output := p.state &&& ptrMask } := by
  simp [push, h, swap_eq]

/-- `Pull` of a real buffer. The mask has `HAS_DATA`, and it may have `IS_NEEDED`. -/
theorem pull_eq [Inhabited D] (h : p.state &&& ptrMask ≠ 0#64) (notNeeded : Bool) (spurious : Nat) :
    ∃ mask : Word, mask.getLsbD 2 = true ∧
      p.pull notNeeded spurious = some (p.heap (p.state &&& ptrMask),
        { p with
          heap := Function.update p.heap (p.state &&& ptrMask) default
          state := (p.state &&& flagsMask &&& ~~~mask) ||| 0#64 ||| p.input
          input := p.state &&& ptrMask
          isFinished := p.state &&& flagsMask &&& Flag.isFinished != 0#64 }) := by
  refine ⟨if notNeeded then Flag.hasData ||| Flag.isNeeded else Flag.hasData, ?_, ?_⟩
  · cases notNeeded <;> decide
  · simp [pull, h, swap_eq]

end Ports

/-- With a mask that has a bit in it, all flags but the new ones are gone. -/
theorem setFlags_eq {value mask garbage : Word} (flags : Word) {spurious : Nat} (hmask : mask ≠ 0#64)
    (hfirst : spurious = 0 → garbage ≠ value) :
    setFlags value flags mask garbage spurious = flags ||| (value &&& ptrMask) := by
  rw [setFlags, exchangeLoop_eq spurious fun h heq => absurd heq.symm (hfirst h)]
  simp [logicalNot, hmask]

/-- The word a swap stores: its pointer is the one swapped in. -/
theorem ptr_swapped (value flags mask : Word) {data : Word} (hflags : flags &&& ptrMask = 0#64)
    (hdata : data &&& flagsMask = 0#64) :
    ((value &&& flagsMask &&& ~~~mask) ||| flags ||| data) &&& ptrMask = data := by
  apply ptr_of_or _ hdata
  rw [BitVec.and_or_distrib_right, hflags, BitVec.or_zero, BitVec.and_assoc,
    BitVec.and_comm (~~~mask), ← BitVec.and_assoc, and_flagsMask_and_ptrMask, BitVec.zero_and]

/-- What a swap leaves in `data_` is a real pointer again. -/
theorem allocated_swapped {value : Word} (h : value &&& ptrMask ≠ 0#64) :
    Allocated (value &&& ptrMask) where
  ne_null := h
  aligned := and_ptrMask_and_flagsMask value

theorem getLsbD_swapped {value data flags mask : Word} (hdata : data &&& flagsMask = 0#64) {k : Nat}
    (hk : k < 3) : ((value &&& flagsMask &&& ~~~mask) ||| flags ||| data).getLsbD k =
      ((value.getLsbD k && !mask.getLsbD k) || flags.getLsbD k) := by
  have hk' : k < 64 := by omega
  simp only [BitVec.getLsbD_or, BitVec.getLsbD_and, BitVec.getLsbD_not, getLsbD_flagsMask hk,
    getLsbD_of_aligned hdata hk, hk', decide_true, Bool.true_and, Bool.and_true, Bool.or_false]

/-! ## The protocol -/

namespace Session

variable {D : Type}

/-- What every step keeps. The three pointers stay real, a finished port has nothing in it, and
the books balance. -/
structure Inv (s : Session D) : Prop where
  output : Allocated s.ports.output
  input : Allocated s.ports.input
  state_ne : s.ports.state &&& ptrMask ≠ 0#64
  accounted : s.pushed = s.pulled ++ s.inFlight
  flag_closed : s.ports.state.getLsbD 0 = true → s.closed = true
  cached_closed : s.ports.isFinished = true → s.closed = true
  closed_idle : s.closed = true → s.ports.hasData = false

theorem Inv.lossless {s : Session D} (h : s.Inv) : s.Lossless where
  pulled_prefix := ⟨_, h.accounted.symm⟩
  accounted := h.accounted
  finished := by
    intro hfin
    rw [Ports.checkFinished_eq, Bool.or_eq_true] at hfin
    have hclosed : s.closed = true := by
      rcases hfin with hcached | hflag
      · exact h.cached_closed hcached
      · exact h.flag_closed (by simp at hflag; exact hflag.1)
    rw [h.accounted, inFlight, h.closed_idle hclosed]
    simp

theorem Inv.of_connect {state output input : Word} {heap : Word → D} (hs : Allocated state)
    (ho : Allocated output) (hi : Allocated input) : (connect state output input heap).Inv where
  output := ho
  input := hi
  state_ne := by
    show state &&& ptrMask ≠ 0#64
    rw [and_ptrMask_of_aligned hs.aligned]
    exact hs.ne_null
  accounted := by
    have hidle : (connect state output input heap).ports.hasData = false := by
      rw [Ports.hasData_eq]
      exact getLsbD_of_aligned hs.aligned (by omega)
    rw [inFlight, hidle]
    rfl
  flag_closed := by
    intro h
    rw [show (connect state output input heap).ports.state = state from rfl,
      getLsbD_of_aligned hs.aligned (by omega)] at h
    cases h
  cached_closed := by simp [connect]
  closed_idle := by simp [connect]

/-- **`Push` under the protocol**: the datum is in the word. -/
theorem Inv.push [Inhabited D] {s : Session D} (h : s.Inv) {d : D} {spurious : Nat}
    (hproto : s.Protocol (.push d spurious)) :
    ∃ s', s.step (.push d spurious) = some s' ∧ s'.Inv := by
  obtain ⟨hcan, hopen⟩ := hproto
  rw [Ports.canPush_eq, Bool.and_eq_true, Bool.not_eq_true'] at hcan
  have hidle : s.inFlight = [] := by rw [inFlight, Ports.hasData_eq, hcan.2]; rfl
  have hstep : s.step (.push d spurious) = some
      { s with
        ports := { s.ports with
          heap := Function.update s.ports.heap s.ports.output d
          state := (s.ports.state &&& flagsMask &&& ~~~Flag.hasData) ||| Flag.hasData ||| s.ports.output
          output := s.ports.state &&& ptrMask }
        pushed := s.pushed ++ [d] } := by
    rw [step, Ports.push_eq h.output.ne_null]
    rfl
  refine ⟨_, hstep, ?_⟩
  have hptr := ptr_swapped s.ports.state Flag.hasData Flag.hasData
    (by decide) h.output.aligned
  exact {
    output := allocated_swapped h.state_ne
    input := h.input
    state_ne := by rw [hptr]; exact h.output.ne_null
    accounted := by
      rw [inFlight, Ports.hasData_eq]
      simp only [getLsbD_swapped h.output.aligned (show 2 < 3 by omega), hptr]
      rw [h.accounted, hidle]
      simp [Flag.hasData]
    flag_closed := by
      intro hbit
      simp only [getLsbD_swapped h.output.aligned (show 0 < 3 by omega)] at hbit
      exact h.flag_closed (by simpa [Flag.hasData] using hbit)
    cached_closed := h.cached_closed
    closed_idle := by
      intro hclosed
      simp only [hopen, Bool.false_eq_true] at hclosed }

/-- **`Pull` under the protocol** gives the datum in the word. -/
theorem Inv.pull [Inhabited D] {s : Session D} (h : s.Inv) {notNeeded : Bool} {spurious : Nat}
    (hproto : s.Protocol (.pull notNeeded spurious)) :
    ∃ s', s.step (.pull notNeeded spurious) = some s' ∧ s'.Inv := by
  have hdata : s.ports.hasData = true := hproto
  have hopen : s.closed = false := by
    cases hc : s.closed
    · rfl
    · rw [h.closed_idle hc] at hdata
      cases hdata
  obtain ⟨mask, hbit, hpull⟩ := Ports.pull_eq h.state_ne notNeeded spurious
  have hfin : (s.ports.state &&& flagsMask &&& Flag.isFinished != 0#64) = false := by
    rw [test_flag s.ports.state (k := 0) (by omega) (by decide) (by decide)]
    cases hb : s.ports.state.getLsbD 0
    · rfl
    · rw [h.flag_closed hb] at hopen
      cases hopen
  have hstep : s.step (.pull notNeeded spurious) = some
      { s with
        ports := { s.ports with
          heap := Function.update s.ports.heap (s.ports.state &&& ptrMask) default
          state := (s.ports.state &&& flagsMask &&& ~~~mask) ||| 0#64 ||| s.ports.input
          input := s.ports.state &&& ptrMask
          isFinished := false }
        pulled := s.pulled ++ [s.ports.heap (s.ports.state &&& ptrMask)] } := by
    rw [step, hpull, hfin]
    rfl
  refine ⟨_, hstep, ?_⟩
  have hptr := ptr_swapped s.ports.state 0#64 mask
    (by decide) h.input.aligned
  have hidle : ((s.ports.state &&& flagsMask &&& ~~~mask) ||| 0#64 ||| s.ports.input).getLsbD 2 =
      false := by
    rw [getLsbD_swapped h.input.aligned (by omega), hbit]
    simp
  exact {
    output := h.output
    input := allocated_swapped h.state_ne
    state_ne := by rw [hptr]; exact h.input.ne_null
    accounted := by
      rw [inFlight, Ports.hasData_eq]
      simp only [hidle]
      have := h.accounted
      rw [inFlight, hdata] at this
      simpa using this
    flag_closed := by
      intro hb
      simp only [getLsbD_swapped h.input.aligned (show 0 < 3 by omega)] at hb
      apply h.flag_closed
      simp at hb
      exact hb.1
    cached_closed := by
      intro hc
      cases hc
    closed_idle := by
      intro hclosed
      simp only [hopen, Bool.false_eq_true] at hclosed }

/-- The calls of `SetFlags`, in an idle word: the pointer stays, and the flags become the new
ones. -/
theorem Inv.setFlags {s : Session D} (h : s.Inv) {flags mask garbage : Word} {spurious : Nat}
    {closed : Bool} (hmask : mask ≠ 0#64) (hptr : flags &&& ptrMask = 0#64)
    (hflags : flags.getLsbD 2 = false) (hidle : s.ports.hasData = false)
    (hfirst : spurious = 0 → garbage ≠ s.ports.state)
    (hclosed : s.closed = true → closed = true) (hfin : flags.getLsbD 0 = true → closed = true) :
    Session.Inv { s with
      ports := { s.ports with state := CkLab.setFlags s.ports.state flags mask garbage spurious }
      closed := closed } := by
  have hstate := setFlags_eq flags hmask hfirst
  have hal := (allocated_swapped h.state_ne).aligned
  have hword : (flags ||| (s.ports.state &&& ptrMask)) &&& ptrMask = s.ports.state &&& ptrMask :=
    ptr_of_or hptr hal
  have hbit : ∀ k, k < 3 → (flags ||| (s.ports.state &&& ptrMask)).getLsbD k = flags.getLsbD k := by
    intro k hk
    rw [BitVec.getLsbD_or, getLsbD_of_aligned hal hk, Bool.or_false]
  rw [hstate]
  have hidle' : Ports.hasData
      { s.ports with state := flags ||| (s.ports.state &&& ptrMask) } = false := by
    rw [Ports.hasData_eq]
    exact (hbit 2 (by omega)).trans hflags
  exact {
    output := h.output
    input := h.input
    state_ne := by rw [hword]; exact h.state_ne
    accounted := by
      have := h.accounted
      rw [inFlight, hidle] at this
      rw [inFlight, hidle']
      exact this
    flag_closed := fun hb => hfin ((hbit 0 (by omega)).symm.trans hb)
    cached_closed := fun hc => hclosed (h.cached_closed hc)
    closed_idle := fun _ => hidle' }

theorem Inv.checkFinished {s : Session D} (h : s.Inv) :
    Session.Inv { s with ports := s.ports.checkFinished.2 } := by
  rw [Ports.checkFinished_shape]
  exact {
    output := h.output
    input := h.input
    state_ne := h.state_ne
    accounted := h.accounted
    flag_closed := h.flag_closed
    cached_closed := by
      intro hb
      have hb : s.ports.checkFinished.1 = true := hb
      rw [Ports.checkFinished_eq, Bool.or_eq_true] at hb
      rcases hb with hcached | hflag
      · exact h.cached_closed hcached
      · exact h.flag_closed (by simp at hflag; exact hflag.1)
    closed_idle := h.closed_idle }

/-- **One step** of the protocol that leaves a datum in the word alone keeps the books. -/
theorem Inv.step [Inhabited D] (s : Session D) (a : PortStep D) (h : s.Inv)
    (hstep : s.Protocol a ∧ s.FlagsIdle a) : ∃ s', s.step a = some s' ∧ s'.Inv := by
  obtain ⟨hproto, hflags⟩ := hstep
  cases a with
  | push d spurious => exact h.push hproto
  | finish garbage spurious =>
    exact ⟨_, rfl, h.setFlags (by decide) (by decide) (by decide) hflags.1 hflags.2 (fun _ => rfl)
      (fun _ => rfl)⟩
  | setNeeded garbage spurious =>
    exact ⟨_, rfl, h.setFlags (by decide) (by decide) (by decide) hflags.1 hflags.2 id
      (fun hb => absurd hb (by decide))⟩
  | setNotNeeded garbage spurious =>
    exact ⟨_, rfl, h.setFlags (by decide) (by decide) (by decide) hflags.1 hflags.2 id
      (fun hb => absurd hb (by decide))⟩
  | pull notNeeded spurious => exact h.pull hproto
  | checkFinished => exact ⟨_, rfl, h.checkFinished⟩

/-- **The port pair loses nothing as long as flags are only set in an idle word**: at every point of
a run of the protocol, from any three allocations.

What has been pushed is what has been pulled, in its order, followed by what is in the word.
`SetFlags` exchanges the whole word for one that has the pointer of the old one but not its other
flags, so a flag that is set when data is there takes `HAS_DATA` away, and what it stood for. It
also begins with a word that nobody has read. -/
theorem run_lossless [Inhabited D] {state output input : Word} (heap : Word → D)
    (hs : Allocated state) (ho : Allocated output) (hi : Allocated input)
    (steps : List (PortStep D))
    (hproto : Along Session.step Protocol (connect state output input heap) steps)
    (hidle : Along Session.step FlagsIdle (connect state output input heap) steps) :
    ∀ pre, pre <+: steps →
      ∃ s, runSteps Session.step (connect state output input heap) pre = some s ∧ s.Lossless := by
  intro pre hpre
  obtain ⟨s, hrun, hinv⟩ := Along.run_inv (I := Inv) Inv.step (Inv.of_connect hs ho hi)
    ((hproto.and hidle).initial hpre)
  exact ⟨s, hrun, hinv.lossless⟩

instance (s : Session D) : ∀ a, Decidable (s.Protocol a)
  | .push _ _ => inferInstanceAs (Decidable (s.ports.canPush = true ∧ s.closed = false))
  | .pull _ _ => inferInstanceAs (Decidable (s.ports.hasData = true))
  | .finish _ _ | .setNeeded _ _ | .setNotNeeded _ _ | .checkFinished => .isTrue trivial

instance (s : Session D) : ∀ a, Decidable (s.FlagsIdle a)
  | .finish garbage spurious | .setNeeded garbage spurious | .setNotNeeded garbage spurious =>
    inferInstanceAs (Decidable (s.ports.hasData = false ∧ (spurious = 0 → garbage ≠ s.ports.state)))
  | .push _ _ | .pull _ _ | .checkFinished => .isTrue trivial

/-- Two data go through, each asked for while the word is idle, with a spurious failure. -/
def politeRun : List (PortStep Nat) :=
  [.setNeeded 0 0, .push 1 0, .pull true 1, .setNeeded 0 2, .push 2 0, .pull false 0, .finish 0 0,
    .checkFinished]

theorem run_lossless_polite :
    ∃ s, runSteps Session.step (connect 16 32 48 fun _ => 0) politeRun = some s ∧ s.Lossless :=
  run_lossless (fun _ => 0) ⟨by decide, by decide⟩ ⟨by decide, by decide⟩ ⟨by decide, by decide⟩
    politeRun (by decide +kernel) (by decide +kernel) politeRun (List.prefix_refl _)

/-- Asking for data that is already there drops it: 1 and 2 are pushed, and 2 is pulled. -/
def impatientRun : List (PortStep Nat) :=
  [.setNeeded 0 0, .push 1 0, .setNeeded 0 0, .push 2 0, .pull false 0]

theorem not_lossless_impatient :
    ¬ ∀ steps : List (PortStep Nat),
      Along Session.step Protocol (connect 16 32 48 fun _ => 0) steps →
      ∃ s, runSteps Session.step (connect 16 32 48 fun _ => 0) steps = some s ∧ s.Lossless := by
  intro hall
  obtain ⟨s, hrun, hs⟩ := hall impatientRun (by decide +kernel)
  have hpulled : (runSteps Session.step (connect 16 32 48 fun _ => 0) impatientRun).map
      (fun s => (s.pushed, s.pulled)) = some ([1, 2], [2]) := by decide +kernel
  rw [hrun, Option.map_some, Option.some_inj, Prod.mk.injEq] at hpulled
  have := hs.pulled_prefix
  rw [hpulled.1, hpulled.2] at this
  exact absurd this (by decide)

end Session

end CxxLab.CkLab
