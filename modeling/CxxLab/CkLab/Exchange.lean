import CxxLab.CkLab.Port
import Mathlib.Data.List.Nodup

/-!
# `ck_lab/Port.h` — `Swap` between the accesses of the other port

In `Port.lean` a call of `DataPtr::Swap` is one step. Here it is what it is in the source: a loop of
`compare_exchange_weak` calls, each of them one access to the word. Between two of them the other
port may have written anything at all, and any of them may fail though the word is as expected. The
loop starts with a null pointer for `expected`, a guess like any other.

The second half is a connected pair on this scale. Either port may be anywhere in a call of its own
while the other one takes a step. The assertions of `State::Push` and `State::Pull` stop nothing
here: the buffers stay apart whether or not a party keeps to the protocol.
-/

set_option autoImplicit false

namespace CxxLab.CkLab

open CxxLab.Lib

/-- `value.compare_exchange_weak(expected, desired)`: whether it succeeded, then the word and
`expected` as they are afterwards. -/
def compareExchangeWeak (value expected desired : Word) (spurious : Bool) : Bool × Word × Word :=
  if value = expected ∧ spurious = false then (true, desired, expected) else (false, value, value)

/-- A call of `DataPtr::Swap` between two accesses to the word. -/
structure SwapCall where
  flags : Word
  mask : Word
  expected : Word
  desired : Word
  /-- The loop is over. -/
  exchanged : Bool

namespace SwapCall

/-- The call before its first attempt, with this pointer in `data_`. -/
def start (data flags mask : Word) : SwapCall :=
  { flags := flags, mask := mask, expected := 0, desired := flags ||| data, exchanged := false }

/-- The word to store in the place of this one. -/
def desiredFor (c : SwapCall) (data expected : Word) : Word :=
  (expected &&& flagsMask &&& ~~~c.mask) ||| c.flags ||| data

/-- One attempt, on the word it finds: the word it leaves, and the call. -/
def attempt (c : SwapCall) (data value : Word) (spurious : Bool) : Word × SwapCall :=
  let (success, value, expected) := compareExchangeWeak value c.expected c.desired spurious
  if success then (value, { c with expected := expected, exchanged := true })
  else (value, { c with expected := expected, desired := c.desiredFor data expected })

/-- The loop, over the words its attempts find, each with whether the attempt fails spuriously. The
result is the word before and after each attempt, and the call. -/
def loop (data : Word) (c : SwapCall) : List (Word × Bool) → List (Word × Word) × SwapCall
  | [] => ([], c)
  | (value, spurious) :: later =>
    if c.exchanged then ([], c)
    else
      let (stored, c) := c.attempt data value spurious
      let (trace, c) := loop data c later
      ((value, stored) :: trace, c)

/-- `data_` and the flags returned, once the loop is over. -/
def result (c : SwapCall) : Option (Word × Word) :=
  if c.exchanged then some (c.expected &&& ptrMask, c.expected &&& flagsMask) else none

end SwapCall

/-- `DataPtr::Swap`, when its attempts find these words: the word before and after each attempt, and
what the call leaves in `data_` and returns, if it is over by then. -/
def swapAmong (data flags mask : Word) (attempts : List (Word × Bool)) :
    List (Word × Word) × Option (Word × Word) :=
  let (trace, c) := SwapCall.loop data (SwapCall.start data flags mask) attempts
  (trace, c.result)

/-- One attempt replaced a word that had the pointer now in `data_` and the flags returned; the
others left theirs alone. -/
def ExchangesOnce (data flags mask : Word) (trace : List (Word × Word)) (data' returned : Word) :
    Prop :=
  ∃ failed p f stored, trace = failed ++ [(p ||| f, stored)] ∧ (∀ w ∈ failed, w.2 = w.1) ∧
    p &&& flagsMask = 0 ∧ f &&& ptrMask = 0 ∧
    stored &&& ptrMask = data ∧ stored &&& flagsMask = (f &&& ~~~mask) ||| flags ∧
    data' = p ∧ returned = f

/-! ## The pair -/

inductive Side where
  | output
  | input
  deriving DecidableEq

/-- A port between two accesses to the word. -/
structure Holder where
  /-- `Port::data_`. -/
  data : Word
  /-- The call of `Swap` it is in. -/
  call : Option SwapCall

/-- The pointer a port owns. From the exchange on until it is in `data_` it is in `expected`. -/
def Holder.owned (p : Holder) : Word :=
  match p.call with
  | some c => if c.exchanged then c.expected &&& ptrMask else p.data
  | none => p.data

/-- A connected pair with its three buffers. -/
structure Buffers where
  /-- `State::data_`. -/
  state : Word
  port : Side → Holder

/-- What a port does next. -/
inductive BufferStep where
  /-- `OutputPort::Push` comes to its `Swap`. -/
  | push
  /-- `InputPort::Pull` does. -/
  | pull (notNeeded : Bool)
  | attempt (side : Side) (spurious : Bool)
  /-- `data_` gets its new pointer and `Swap` returns. -/
  | swapped (side : Side)

namespace Buffers

def setPort (s : Buffers) (side : Side) (p : Holder) : Buffers :=
  { s with port := Function.update s.port side p }

/-- The start of a call of `Swap`. -/
def call (s : Buffers) (side : Side) (flags mask : Word) : Option Buffers :=
  match (s.port side).call with
  | some _ => none
  | none =>
    let data := (s.port side).data
    some (s.setPort side { data := data, call := some (SwapCall.start data flags mask) })

def step (s : Buffers) : BufferStep → Option Buffers
  | .push => s.call .output Flag.hasData Flag.hasData
  | .pull notNeeded =>
    s.call .input 0 (if notNeeded then Flag.hasData ||| Flag.isNeeded else Flag.hasData)
  | .attempt side spurious => do
    let c ← (s.port side).call
    if c.exchanged then none
    else
      let data := (s.port side).data
      let (value, c) := c.attempt data s.state spurious
      some { s.setPort side { data := data, call := some c } with state := value }
  | .swapped side => do
    let c ← (s.port side).call
    let (data, _) ← c.result
    some (s.setPort side { data := data, call := none })

/-- The three buffers: the word's, and those of the two ports. -/
def owned (s : Buffers) : List Word :=
  [s.state &&& ptrMask, (s.port .output).owned, (s.port .input).owned]

/-- A pair right after `Connect`. -/
def connect (state output input : Word) : Buffers where
  state := state
  port
    | .output => { data := output, call := none }
    | .input => { data := input, call := none }

end Buffers

/-! ## One call -/

theorem ptr_or_flags (w : Word) : (w &&& ptrMask) ||| (w &&& flagsMask) = w := by
  rw [← BitVec.and_or_distrib_left, show ptrMask ||| flagsMask = BitVec.allOnes 64 by decide,
    BitVec.and_allOnes]

theorem and_flagsMask_of_flags {flags : Word} (h : flags &&& ptrMask = 0#64) :
    flags &&& flagsMask = flags := by
  have hword := ptr_or_flags flags
  rw [h, BitVec.zero_or] at hword
  exact hword

/-- The flags of the word a swap stores. -/
theorem flags_swapped (value mask : Word) {flags data : Word} (hflags : flags &&& ptrMask = 0#64)
    (hdata : data &&& flagsMask = 0#64) :
    ((value &&& flagsMask &&& ~~~mask) ||| flags ||| data) &&& flagsMask =
      (value &&& flagsMask &&& ~~~mask) ||| flags := by
  have hkept : value &&& flagsMask &&& ~~~mask &&& flagsMask = value &&& flagsMask &&& ~~~mask := by
    rw [BitVec.and_assoc, BitVec.and_comm (~~~mask), ← BitVec.and_assoc, BitVec.and_assoc value,
      BitVec.and_self]
  rw [BitVec.and_or_distrib_right, BitVec.and_or_distrib_right, hkept, and_flagsMask_of_flags hflags,
    hdata, BitVec.or_zero]

namespace SwapCall

/-- What holds between two attempts: `desired` is what belongs in the place of `expected`. -/
def Ready (data : Word) (c : SwapCall) : Prop :=
  c.exchanged = false → c.desired = c.desiredFor data c.expected

theorem ready_start (data flags mask : Word) : (start data flags mask).Ready data := by
  intro _
  simp [start, desiredFor]

/-- **One attempt**: nothing is written and the call is ready for the next, or the word found is
replaced by the one computed from it. -/
theorem attempt_cases {data : Word} {c : SwapCall} (value : Word) (spurious : Bool)
    (hopen : c.exchanged = false) (h : c.Ready data) :
    (c.attempt data value spurious =
        (value, { c with expected := value, desired := c.desiredFor data value }) ∧
      (spurious = true ∨ value ≠ c.expected)) ∨
    (c.attempt data value spurious =
        (c.desiredFor data value, { c with expected := value, exchanged := true }) ∧
      value = c.expected) := by
  unfold attempt compareExchangeWeak
  by_cases hsuccess : value = c.expected ∧ spurious = false
  · right
    rw [if_pos hsuccess, hsuccess.1, ← h hopen]
    exact ⟨rfl, rfl⟩
  · left
    rw [if_neg hsuccess]
    refine ⟨rfl, ?_⟩
    by_cases hvalue : value = c.expected
    · cases spurious
      · exact absurd ⟨hvalue, rfl⟩ hsuccess
      · exact Or.inl rfl
    · exact Or.inr hvalue

theorem loop_of_exchanged {data : Word} {c : SwapCall} (h : c.exchanged = true)
    (attempts : List (Word × Bool)) : loop data c attempts = ([], c) := by
  cases attempts with
  | nil => rfl
  | cons a later => simp [loop, h]

theorem loop_cons {data value : Word} {spurious : Bool} {c : SwapCall} (h : c.exchanged = false)
    (later : List (Word × Bool)) : loop data c ((value, spurious) :: later) =
      ((value, (c.attempt data value spurious).1) ::
          (loop data (c.attempt data value spurious).2 later).1,
        (loop data (c.attempt data value spurious).2 later).2) := by
  rw [loop, h]
  rfl

/-- **The loop**, if it comes to an end: the words before the last are left alone, and the last one
is exchanged. -/
theorem loop_exchanged {data : Word} : ∀ {attempts : List (Word × Bool)} {c : SwapCall},
    c.exchanged = false → c.Ready data → (loop data c attempts).2.exchanged = true →
    ∃ failed found, (loop data c attempts).1 = failed ++ [(found, c.desiredFor data found)] ∧
      (∀ w ∈ failed, w.2 = w.1) ∧ (∃ a ∈ attempts, a.1 = found) ∧
      (loop data c attempts).2.expected = found := by
  intro attempts
  induction attempts with
  | nil =>
    intro c hopen _ hdone
    rw [loop, hopen] at hdone
    cases hdone
  | cons a later ih =>
    obtain ⟨value, spurious⟩ := a
    intro c hopen hready hdone
    rw [loop_cons hopen] at hdone ⊢
    -- Whether the attempt fails or not, `desired` belongs to the word that is expected next.
    rcases attempt_cases value spurious hopen hready with ⟨hattempt, -⟩ | ⟨hattempt, -⟩
    · rw [hattempt] at hdone ⊢
      obtain ⟨failed, found, htrace, hfailed, ⟨b, hb, hfound⟩, hexpected⟩ :=
        ih (c := { c with expected := value, desired := c.desiredFor data value }) hopen
          (fun _ => rfl) hdone
      refine ⟨(value, value) :: failed, found, ?_, ?_, ⟨b, List.mem_cons_of_mem _ hb, hfound⟩,
        hexpected⟩
      · exact congrArg (List.cons (value, value)) htrace
      · rintro w (_ | ⟨_, hw⟩)
        · rfl
        · exact hfailed w hw
    · rw [hattempt]
      simp only [loop_of_exchanged]
      exact ⟨[], value, rfl, by simp, ⟨_, List.mem_cons_self, rfl⟩, rfl⟩

end SwapCall

theorem swapAmong_fst_snd (data flags mask : Word) (attempts : List (Word × Bool)) :
    swapAmong data flags mask attempts =
      ((SwapCall.loop data (SwapCall.start data flags mask) attempts).1,
        (SwapCall.loop data (SwapCall.start data flags mask) attempts).2.result) := rfl

/-- What a call that ends has done, by the word it found last. -/
theorem swapAmong_eq {data flags mask : Word} {attempts : List (Word × Bool)}
    (hdone : (SwapCall.loop data (SwapCall.start data flags mask) attempts).2.exchanged = true) :
    ∃ failed found, swapAmong data flags mask attempts =
        (failed ++ [(found, (found &&& flagsMask &&& ~~~mask) ||| flags ||| data)],
          some (found &&& ptrMask, found &&& flagsMask)) ∧
      (∀ w ∈ failed, w.2 = w.1) ∧ ∃ a ∈ attempts, a.1 = found := by
  obtain ⟨failed, found, htrace, hfailed, hfound, hexpected⟩ :=
    SwapCall.loop_exchanged rfl (SwapCall.ready_start data flags mask) hdone
  refine ⟨failed, found, ?_, hfailed, hfound⟩
  rw [swapAmong_fst_snd, SwapCall.result, if_pos hdone, hexpected, htrace]
  rfl

/-- **A call of `Swap`**, whatever the other port writes in between: it exchanges once. -/
theorem swapAmong_exchangesOnce {data flags mask : Word} {attempts : List (Word × Bool)}
    {trace : List (Word × Word)} {data' returned : Word} (hdata : data &&& flagsMask = 0#64)
    (hflags : flags &&& ptrMask = 0#64)
    (hcall : swapAmong data flags mask attempts = (trace, some (data', returned))) :
    ExchangesOnce data flags mask trace data' returned := by
  have hdone : (SwapCall.loop data (SwapCall.start data flags mask) attempts).2.exchanged = true := by
    by_contra hopen
    rw [swapAmong_fst_snd, SwapCall.result, if_neg hopen] at hcall
    cases hcall
  obtain ⟨failed, found, heq, hfailed, -⟩ := swapAmong_eq hdone
  rw [heq] at hcall
  cases hcall
  refine ⟨failed, found &&& ptrMask, found &&& flagsMask, _, ?_, hfailed,
    and_ptrMask_and_flagsMask found, and_flagsMask_and_ptrMask found,
    ptr_swapped found flags mask hflags hdata, flags_swapped found mask hflags hdata, rfl, rfl⟩
  rw [ptr_or_flags]

/-- A word nobody else touches, with this many spurious failures. -/
def quiet (value : Word) (spurious : Nat) : List (Word × Bool) :=
  List.replicate spurious (value, true) ++ [(value, false), (value, false)]

namespace SwapCall

/-- On a word that stays as it is, the call ends with the first attempt that finds it expected. -/
theorem loop_quiet {data value : Word} : ∀ (spurious : Nat) {c : SwapCall}, c.exchanged = false →
    c.Ready data → (loop data c (quiet value spurious)).2.exchanged = true := by
  intro spurious
  induction spurious with
  | zero =>
    intro c hopen hready
    rw [quiet, List.replicate_zero, List.nil_append, loop_cons hopen]
    rcases attempt_cases value false hopen hready with ⟨hattempt, -⟩ | ⟨hattempt, -⟩
    · rw [hattempt]
      -- the first attempt has loaded the word, so the second cannot miss
      obtain ⟨-, hspurious | hvalue⟩ | ⟨hsecond, -⟩ := attempt_cases
        (c := { c with expected := value, desired := c.desiredFor data value }) value false hopen
        fun _ => rfl
      · cases hspurious
      · exact absurd rfl hvalue
      · rw [loop_cons (by exact hopen), hsecond]
        rfl
    · rw [hattempt, loop_of_exchanged rfl]
  | succ n ih =>
    intro c hopen hready
    rw [quiet, List.replicate_succ, List.cons_append, loop_cons hopen]
    rcases attempt_cases value true hopen hready with ⟨hattempt, -⟩ | ⟨hattempt, -⟩
    · rw [hattempt]
      exact ih (c := { c with expected := value, desired := c.desiredFor data value }) hopen
        fun _ => rfl
    · rw [hattempt, loop_of_exchanged rfl]

end SwapCall

/-- Without interference a call does what `swap` says, which takes it as one step. -/
theorem swapAmong_quiet (data flags mask value : Word) (spurious : Nat) :
    ∃ failed, swapAmong data flags mask (quiet value spurious) =
        (failed ++ [(value, (swap value data flags mask spurious).1)],
          some (swap value data flags mask spurious).2) ∧
      ∀ w ∈ failed, w.2 = w.1 := by
  obtain ⟨failed, found, heq, hfailed, a, ha, hfound⟩ := swapAmong_eq
    (SwapCall.loop_quiet spurious rfl (SwapCall.ready_start data flags mask))
  have hsame : a.1 = value := by
    simp only [quiet, List.mem_append, List.mem_replicate, List.mem_cons, List.not_mem_nil,
      or_false] at ha
    rcases ha with ⟨-, rfl⟩ | rfl | rfl
    · rfl
    · rfl
    · rfl
  rw [hsame] at hfound
  subst hfound
  exact ⟨failed, by rw [heq, swap_eq], hfailed⟩

/-! ## The pair -/

namespace Holder

/-- What a port's call keeps to: its flags are flags, and `desired` is what belongs in the place of
`expected`. -/
def Ready (p : Holder) : Prop :=
  ∀ c, p.call = some c → c.flags &&& ptrMask = 0#64 ∧ c.Ready p.data

theorem owned_of_trying {p : Holder} {c : SwapCall} (hc : p.call = some c)
    (hopen : c.exchanged = false) : p.owned = p.data := by
  simp [owned, hc, hopen]

end Holder

namespace Buffers

/-- What every step keeps: the three buffers are the three there were. -/
structure Inv (buffers : List Word) (s : Buffers) : Prop where
  perm : s.owned.Perm buffers
  ready : ∀ side, (s.port side).Ready

theorem owned_mem (s : Buffers) (side : Side) : (s.port side).owned ∈ s.owned := by
  cases side
  · simp [owned]
  · simp [owned]

theorem owned_setPort {s : Buffers} {side : Side} {p : Holder}
    (h : p.owned = (s.port side).owned) : (s.setPort side p).owned = s.owned := by
  cases side
  · simp [owned, setPort, h]
  · simp [owned, setPort, h]

/-- A port that owns what the word had, and the word what the port had. -/
theorem owned_exchange {s : Buffers} {side : Side} {p : Holder} {value : Word}
    (hp : p.owned = s.state &&& ptrMask) (hvalue : value &&& ptrMask = (s.port side).owned) :
    Buffers.owned { s.setPort side p with state := value } |>.Perm s.owned := by
  cases side
  · simpa [owned, setPort, hp, hvalue] using List.Perm.swap _ _ _
  · simpa [owned, setPort, hp, hvalue] using List.reverse_perm s.owned

theorem ready_setPort {s : Buffers} (h : ∀ side, (s.port side).Ready) {side : Side} {p : Holder}
    (hp : p.Ready) (other : Side) : ((s.setPort side p).port other).Ready := by
  by_cases heq : other = side
  · subst heq
    simpa [setPort] using hp
  · simpa [setPort, heq] using h other

theorem Inv.setPort {buffers : List Word} {s : Buffers} (h : s.Inv buffers) {side : Side} {p : Holder}
    (hp : p.owned = (s.port side).owned) (hready : p.Ready) : (s.setPort side p).Inv buffers where
  perm := by rw [owned_setPort hp]; exact h.perm
  ready := ready_setPort h.ready hready

/-- `Push` and `Pull`, before they have looked at the word. -/
theorem Inv.call {buffers : List Word} {s s' : Buffers} (h : s.Inv buffers) {side : Side}
    {flags mask : Word} (hflags : flags &&& ptrMask = 0#64)
    (hcall : s.call side flags mask = some s') : s'.Inv buffers := by
  unfold Buffers.call at hcall
  split at hcall
  · cases hcall
  · rename_i hidle
    cases hcall
    apply h.setPort
    · simp [Holder.owned, hidle, SwapCall.start]
    · rintro c ⟨⟩
      exact ⟨hflags, SwapCall.ready_start _ flags mask⟩

/-- **An attempt**: the port and the word exchange what they own, or nothing happens. -/
theorem Inv.attempt {buffers : List Word} (hbuffers : ∀ ptr ∈ buffers, ptr &&& flagsMask = 0#64)
    {s s' : Buffers} (h : s.Inv buffers) {side : Side} {spurious : Bool}
    (hstep : s.step (.attempt side spurious) = some s') : s'.Inv buffers := by
  obtain ⟨c, hc, hstep⟩ := Option.bind_eq_some_iff.mp hstep
  split at hstep
  · cases hstep
  · rename_i hopen
    rw [Bool.not_eq_true] at hopen
    obtain ⟨hflags, hready⟩ := h.ready side c hc
    have hown := Holder.owned_of_trying hc hopen
    have hdata : (s.port side).data &&& flagsMask = 0#64 := by
      rw [← hown]
      exact hbuffers _ (h.perm.subset (s.owned_mem side))
    rcases c.attempt_cases s.state spurious hopen hready with ⟨hattempt, -⟩ | ⟨hattempt, -⟩
    · simp only [hattempt] at hstep
      cases hstep
      apply h.setPort
      · rw [hown]
        simp [Holder.owned, hopen]
      · rintro c' ⟨⟩
        exact ⟨hflags, fun _ => rfl⟩
    · simp only [hattempt] at hstep
      cases hstep
      -- The port found the word's pointer and has stored its own.
      have hstored : c.desiredFor (s.port side).data s.state &&& ptrMask = (s.port side).owned := by
        rw [hown]
        exact ptr_swapped s.state c.flags c.mask hflags hdata
      refine ⟨(owned_exchange ?_ hstored).trans h.perm, ready_setPort h.ready ?_⟩
      · simp [Holder.owned]
      · rintro c' ⟨⟩
        exact ⟨hflags, fun hopen => by cases hopen⟩

/-- The end of a call: the port has in `data_` what it owned already. -/
theorem Inv.swapped {buffers : List Word} {s s' : Buffers} (h : s.Inv buffers) {side : Side}
    (hstep : s.step (.swapped side) = some s') : s'.Inv buffers := by
  obtain ⟨c, hc, hstep⟩ := Option.bind_eq_some_iff.mp hstep
  obtain ⟨⟨data, flags⟩, hresult, hstep⟩ := Option.bind_eq_some_iff.mp hstep
  rw [SwapCall.result] at hresult
  split at hresult
  · rename_i hdone
    cases hresult
    cases hstep
    apply h.setPort
    · simp [Holder.owned, hc, hdone]
    · intro c' hc'
      cases hc'
  · cases hresult

theorem Inv.step {buffers : List Word} (hbuffers : ∀ ptr ∈ buffers, ptr &&& flagsMask = 0#64)
    (s : Buffers) (a : BufferStep) (s' : Buffers) (h : s.Inv buffers) (hstep : s.step a = some s') :
    s'.Inv buffers := by
  cases a with
  | push => exact h.call (by decide) hstep
  | pull notNeeded => exact h.call (by decide) hstep
  | attempt side spurious => exact h.attempt hbuffers hstep
  | swapped side => exact h.swapped hstep

theorem Inv.of_connect {state output input : Word} (hs : state &&& flagsMask = 0#64) :
    (connect state output input).Inv [state, output, input] where
  perm := by
    simp [owned, connect, Holder.owned, and_ptrMask_of_aligned hs]
  ready := by
    intro side c hc
    cases side <;> cases hc

/-- **The buffers go round**: in every run, however the calls interleave, each of the three belongs
to the word or to one of the ports, and to one alone. -/
theorem run_owned {state output input : Word} (hs : Allocated state) (ho : Allocated output)
    (hi : Allocated input) {steps : List BufferStep} {s : Buffers}
    (hrun : runSteps step (connect state output input) steps = some s) :
    s.owned.Perm [state, output, input] := by
  have hbuffers : ∀ ptr ∈ [state, output, input], ptr &&& flagsMask = 0#64 := by
    simp [hs.aligned, ho.aligned, hi.aligned]
  exact (runSteps_inv (Inv.step hbuffers) (Inv.of_connect hs.aligned) hrun).perm

end Buffers

/-- **`Swap` is one exchange, and no buffer has two owners**: a call that returns has exchanged
once, whatever the words between its attempts were; and in every run of pushes and pulls over three
allocations each of these has one owner.

The first part is about one call with everybody else in between: each attempt finds some word, and
fails or not, also for no reason. All attempts but the last have changed nothing. The second part is
about the pair of ports, each with a buffer, and the one in the shared word. -/
theorem swap_exchanges_once (data flags mask : Word) (hdata : data &&& flagsMask = 0#64)
    (hflags : flags &&& ptrMask = 0#64) (state output input : Word)
    (hs : Allocated state) (ho : Allocated output) (hi : Allocated input)
    (hdistinct : [state, output, input].Nodup) :
    (∀ attempts trace data' returned,
      swapAmong data flags mask attempts = (trace, some (data', returned)) →
      ExchangesOnce data flags mask trace data' returned) ∧
    (∀ steps s, runSteps Buffers.step (Buffers.connect state output input) steps = some s →
      s.owned.Perm [state, output, input] ∧ s.owned.Nodup) := by
  refine ⟨fun attempts trace data' returned hcall => swapAmong_exchangesOnce hdata hflags hcall, ?_⟩
  intro steps s hrun
  have hperm := Buffers.run_owned hs ho hi hrun
  exact ⟨hperm, hperm.nodup_iff.mpr hdistinct⟩

/-- A push and a pull at the same time: the pull's second attempt comes after the exchange of the
push, and its guess is out of date. -/
def crossingRun : List BufferStep :=
  [.push, .pull false, .attempt .output true, .attempt .input false, .attempt .output false,
    .attempt .input false, .swapped .output, .attempt .input false, .swapped .input]

theorem swap_exchanges_once_crossing :
    ExchangesOnce 32 Flag.hasData Flag.hasData [(16, 16), (18, 18), (18, 38)] 16 2 ∧
    ∃ s, runSteps Buffers.step (Buffers.connect 16 32 48) crossingRun = some s ∧
      s.owned.Perm [16, 32, 48] ∧ s.owned.Nodup := by
  obtain ⟨hcall, hpair⟩ := swap_exchanges_once 32 Flag.hasData Flag.hasData (by decide)
    (by decide) 16 32 48 ⟨by decide, by decide⟩ ⟨by decide, by decide⟩ ⟨by decide, by decide⟩ (by decide)
  obtain ⟨s, hrun⟩ : ∃ s, runSteps Buffers.step (Buffers.connect 16 32 48) crossingRun = some s :=
    Option.isSome_iff_exists.mp (by decide +kernel)
  -- the word is found as 16 first, then the consumer has set IS_NEEDED
  exact ⟨hcall [(16, true), (18, false), (18, false)] _ _ _ (by decide +kernel),
    s, hrun, hpair crossingRun s hrun⟩

end CxxLab.CkLab
