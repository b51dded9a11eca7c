import CxxLab.Lib.Run

/-!
# `asio_lab/main.cpp` — `Connection`

`Write` posts its message to the strand, and the strand runs one handler after another: `WriteImpl` puts
the message behind the others in the outbox, and `WriteHandler`, at the completion of a write, takes
the one that was written from its front. Whether a write is under way is not said anywhere; `WriteImpl`
takes it from the length of the outbox, which is right as long as whoever leaves something in the
outbox starts a write.

`WriteHandler` does not when the write has failed. What is left in the outbox then keeps every later
`WriteImpl` from starting one.
-/

set_option autoImplicit false

namespace CxxLab.AsioLab

open CxxLab.Lib

/-- A connection, with what the strand and the socket have of it. -/
structure Connection where
  /-- The messages of the `WriteImpl` handlers that wait in the strand. -/
  posted : List String
  outbox : List String
  /-- The messages of the writes that have not completed. -/
  inFlight : List String
  /-- What `Write` was given, in order. -/
  given : List String
  /-- What `async_write` was given, in order. -/
  passed : List String
  deriving DecidableEq

namespace Connection

def new : Connection := ⟨[], [], [], [], []⟩

/-- `Connection::Write`. -/
def write (c : Connection) (message : String) : Connection :=
  { c with posted := c.posted ++ [message], given := c.given ++ [message] }

/-- `Connection::DoWrite`. -/
def doWrite (c : Connection) : Connection :=
  match c.outbox with
  | [] => c
  | message :: _ =>
    { c with inFlight := c.inFlight ++ [message], passed := c.passed ++ [message] }

/-- `Connection::WriteImpl`. -/
def writeImpl (c : Connection) (message : String) : Connection :=
  let c := { c with outbox := c.outbox ++ [message] }
  if c.outbox.length > 1 then c else c.doWrite

/-- `Connection::WriteHandler`. There is no front to take from an empty outbox. -/
def writeHandler (c : Connection) (error : Bool) : Option Connection :=
  match c.outbox with
  | [] => none
  | _ :: outbox =>
    let c := { c with outbox := outbox }
    if error then some c
    else if !c.outbox.isEmpty then some c.doWrite
    else some c

inductive Op where
  | write (message : String)
  /-- The strand runs the first of the posted handlers. -/
  | writeImpl
  /-- One of the writes completes, and the strand runs its handler. -/
  | complete (i : Nat) (error : Bool)
  deriving DecidableEq

def step (c : Connection) : Op → Option Connection
  | .write message => some (c.write message)
  | .writeImpl =>
    match c.posted with
    | [] => none
    | message :: posted => some ({ c with posted := posted }.writeImpl message)
  | .complete i error =>
    if i < c.inFlight.length then { c with inFlight := c.inFlight.eraseIdx i }.writeHandler error
    else none

/-- **One write in flight**, that of the front of the outbox, whenever there is something in it. -/
structure OneInFlight (c : Connection) : Prop where
  busy : c.outbox ≠ [] ↔ ∃ message, c.inFlight = [message] ∧ c.outbox.head? = some message
  passed : c.passed <+: c.given

/-- No write fails with others behind it. -/
def FailsLast (c : Connection) : Op → Prop
  | .complete _ true => c.outbox.length ≤ 1
  | _ => True

/-! ## What holds of every run -/

/-- Everything given is passed on, in flight or behind what is, or still posted. -/
structure Inv (c : Connection) : Prop where
  given : c.given = c.passed ++ c.outbox.drop c.inFlight.length ++ c.posted
  inFlight : c.inFlight = c.outbox.take 1 ∨ c.inFlight = []

theorem Inv.of_new : Inv new := ⟨rfl, .inl rfl⟩

variable {c c' : Connection}

theorem Inv.oneInFlight_iff (h : Inv c) : OneInFlight c ↔ c.inFlight = c.outbox.take 1 := by
  constructor
  · intro hone
    cases houtbox : c.outbox with
    | nil =>
      obtain hfront | hnone := h.inFlight
      · rw [hfront, houtbox]
      · exact hnone
    | cons message outbox =>
      obtain ⟨m, hm, hhead⟩ := hone.busy.mp (by rw [houtbox]; exact List.cons_ne_nil _ _)
      rw [houtbox, List.head?_cons] at hhead
      cases hhead
      exact hm
  · intro hfront
    refine ⟨?_, ?_⟩
    · rw [hfront]
      cases c.outbox with
      | nil => simp
      | cons message outbox => simp
    · rw [h.given, List.append_assoc]
      exact List.prefix_append _ _

/-- What a step can do. -/
inductive Moves (c : Connection) : Op → Connection → Prop where
  | write (message : String) : Moves c (.write message) (c.write message)
  /-- The outbox was empty, and a write begins. -/
  | begin (message : String) (posted : List String) : c.posted = message :: posted → c.outbox = [] →
    Moves c .writeImpl { c with
      posted := posted, outbox := [message], inFlight := c.inFlight ++ [message]
      passed := c.passed ++ [message] }
  | queue (message : String) (posted : List String) : c.posted = message :: posted → c.outbox ≠ [] →
    Moves c .writeImpl { c with posted := posted, outbox := c.outbox ++ [message] }
  /-- The last of the outbox is written, or has failed. -/
  | last (i : Nat) (error : Bool) (message : String) : i < c.inFlight.length →
    c.outbox = [message] →
    Moves c (.complete i error) { c with outbox := [], inFlight := c.inFlight.eraseIdx i }
  | next (i : Nat) (message following : String) (outbox : List String) : i < c.inFlight.length →
    c.outbox = message :: following :: outbox →
    Moves c (.complete i false) { c with
      outbox := following :: outbox, inFlight := c.inFlight.eraseIdx i ++ [following]
      passed := c.passed ++ [following] }
  /-- A write has failed, and none begins. -/
  | fail (i : Nat) (message following : String) (outbox : List String) : i < c.inFlight.length →
    c.outbox = message :: following :: outbox →
    Moves c (.complete i true) { c with
      outbox := following :: outbox, inFlight := c.inFlight.eraseIdx i }

theorem moves_of_step {op : Op} (h : c.step op = some c') : Moves c op c' := by
  obtain ⟨posted, outbox, inFlight, given, passed⟩ := c
  cases op with
  | write message =>
    cases h
    exact .write message
  | writeImpl =>
    cases posted with
    | nil => cases h
    | cons message posted =>
      cases outbox with
      | nil =>
        cases h
        exact .begin message posted rfl rfl
      | cons front outbox =>
        have hlen : (front :: outbox ++ [message]).length > 1 := by simp
        cases (congrArg some (if_pos hlen)).symm.trans h
        exact .queue message posted rfl (List.cons_ne_nil _ _)
  | complete i error =>
    obtain ⟨hi, h⟩ : i < inFlight.length ∧
        writeHandler ⟨posted, outbox, inFlight.eraseIdx i, given, passed⟩ error = some c' := by
      simpa [step] using h
    cases outbox with
    | nil => cases h
    | cons message outbox =>
      cases outbox with
      | nil =>
        cases error <;> cases h <;> exact .last i _ message hi rfl
      | cons following outbox =>
        cases error with
        | false =>
          cases h
          exact .next i message following outbox hi rfl
        | true =>
          cases h
          exact .fail i message following outbox hi rfl

/-- The one write that there is when one completes. -/
theorem Inv.inFlight_eq (h : Inv c) {i : Nat} (hi : i < c.inFlight.length) {message : String}
    {outbox : List String} (houtbox : c.outbox = message :: outbox) :
    c.inFlight = [message] ∧ c.inFlight.eraseIdx i = [] := by
  obtain hfront | hnone := h.inFlight
  · rw [houtbox] at hfront
    rw [hfront] at hi ⊢
    have hzero : i = 0 := Nat.lt_one_iff.mp hi
    subst hzero
    exact ⟨rfl, rfl⟩
  · rw [hnone] at hi
    exact absurd hi (Nat.not_lt_zero i)

/-- Whether a write has failed or not, there is a message for `WriteHandler` to take. -/
theorem Inv.complete_isSome (h : Inv c) {i : Nat} (hi : i < c.inFlight.length) (error : Bool) :
    (c.step (.complete i error)).isSome := by
  have houtbox : c.outbox ≠ [] := by
    intro hnil
    have hnone : c.inFlight = [] := by simpa [hnil] using h.inFlight
    rw [hnone] at hi
    exact absurd hi (Nat.not_lt_zero i)
  obtain ⟨message, outbox, houtbox⟩ := List.exists_cons_of_ne_nil houtbox
  rw [step, if_pos hi, writeHandler, houtbox]
  cases error with
  | true => rfl
  | false => cases outbox <;> rfl

theorem Inv.completed (h : Inv c) {i : Nat} (hi : i < c.inFlight.length) {message : String}
    {outbox : List String} (houtbox : c.outbox = message :: outbox) :
    Inv { c with outbox := outbox, inFlight := c.inFlight.eraseIdx i } := by
  have hgiven := h.given
  obtain ⟨hone, herase⟩ := h.inFlight_eq hi houtbox
  rw [herase]
  rw [hone, houtbox] at hgiven
  exact ⟨hgiven, .inr rfl⟩

theorem Inv.step {op : Op} (h : Inv c) (hmoves : Moves c op c') : Inv c' := by
  have hgiven := h.given
  cases hmoves with
  | write message =>
    refine ⟨?_, h.inFlight⟩
    show c.given ++ [message] =
      c.passed ++ c.outbox.drop c.inFlight.length ++ (c.posted ++ [message])
    rw [hgiven, List.append_assoc]
  | begin message posted hposted houtbox =>
    have hnone : c.inFlight = [] := by simpa [houtbox] using h.inFlight
    rw [houtbox, hposted, hnone] at hgiven
    rw [hnone]
    refine ⟨?_, .inl rfl⟩
    simpa using hgiven
  | queue message posted hposted houtbox =>
    have hlen : c.inFlight.length ≤ c.outbox.length := by
      obtain hfront | hnone := h.inFlight
      · rw [hfront, List.length_take]
        exact Nat.min_le_right _ _
      · rw [hnone]
        exact Nat.zero_le _
    refine ⟨?_, h.inFlight.imp_left fun hfront => ?_⟩
    · show c.given = c.passed ++ (c.outbox ++ [message]).drop c.inFlight.length ++ posted
      rw [hgiven, hposted, List.drop_append_of_le_length hlen]
      simp
    · show c.inFlight = (c.outbox ++ [message]).take 1
      rw [hfront, List.take_append_of_le_length (List.length_pos_iff.mpr houtbox)]
  | last i error message hi houtbox => exact h.completed hi houtbox
  | next i message following outbox hi houtbox =>
    obtain ⟨hone, herase⟩ := h.inFlight_eq hi houtbox
    rw [herase]
    rw [hone, houtbox] at hgiven
    refine ⟨?_, .inl rfl⟩
    simpa using hgiven
  | fail i message following outbox hi houtbox => exact h.completed hi houtbox

/-- **What a step can lose**: it is only the write that fails with others behind it. -/
theorem Inv.front_iff {op : Op} (h : Inv c) (hmoves : Moves c op c') :
    c'.inFlight = c'.outbox.take 1 ↔ c.inFlight = c.outbox.take 1 ∧ FailsLast c op := by
  cases hmoves with
  | write message => exact (and_iff_left trivial).symm
  | begin message posted hposted houtbox =>
    have hnone : c.inFlight = [] := by simpa [houtbox] using h.inFlight
    rw [hnone, houtbox]
    exact iff_of_true rfl ⟨rfl, trivial⟩
  | queue message posted hposted houtbox =>
    show c.inFlight = (c.outbox ++ [message]).take 1 ↔ _
    rw [List.take_append_of_le_length (List.length_pos_iff.mpr houtbox)]
    exact (and_iff_left trivial).symm
  | last i error message hi houtbox =>
    obtain ⟨hone, herase⟩ := h.inFlight_eq hi houtbox
    rw [herase, hone, houtbox]
    refine iff_of_true rfl ⟨rfl, ?_⟩
    cases error with
    | false => trivial
    | true => exact Nat.le_of_eq (congrArg List.length houtbox)
  | next i message following outbox hi houtbox =>
    obtain ⟨hone, herase⟩ := h.inFlight_eq hi houtbox
    rw [herase, hone, houtbox]
    exact iff_of_true rfl ⟨rfl, trivial⟩
  | fail i message following outbox hi houtbox =>
    obtain ⟨-, herase⟩ := h.inFlight_eq hi houtbox
    rw [herase]
    refine iff_of_false nofun fun hlast => ?_
    have hlen : c.outbox.length ≤ 1 := hlast.2
    rw [houtbox] at hlen
    exact Nat.not_succ_le_zero _ (Nat.le_of_succ_le_succ hlen)

theorem inv_step (c : Connection) (op : Op) (c' : Connection) (h : Inv c)
    (hstep : c.step op = some c') : Inv c' :=
  h.step (moves_of_step hstep)

/-- **One write is in flight** at the end of exactly the runs in which no write failed with others
behind it. -/
theorem oneInFlight_iff_failsLast {ops : List Op} (hrun : runSteps step new ops = some c) :
    OneInFlight c ↔ Along step FailsLast new ops := by
  have hinv : Inv c := runSteps_inv inv_step .of_new hrun
  rw [hinv.oneInFlight_iff, Along.lost_iff inv_step
    (fun s op s' hs hstep => hs.front_iff (moves_of_step hstep)) .of_new hrun]
  exact and_iff_right rfl

/-- **`WriteHandler` never takes a message from an empty queue**: in every state of a run, the end of a
write that is in flight is defined. -/
theorem complete_isSome_of_run {ops : List Op} (hrun : runSteps step new ops = some c) {i : Nat}
    (hi : i < c.inFlight.length) (error : Bool) : (c.step (.complete i error)).isSome :=
  Inv.complete_isSome (runSteps_inv inv_step .of_new hrun) hi error

/-- **A connection that has lost its write** never begins another. -/
theorem passed_of_stuck {ops : List Op} (houtbox : c.outbox ≠ []) (hnone : c.inFlight = [])
    (hrun : runSteps step c ops = some c') : c'.passed = c.passed := by
  have hstuck : c'.outbox ≠ [] ∧ c'.inFlight = [] ∧ c'.passed = c.passed := by
    refine runSteps_inv (I := fun s => s.outbox ≠ [] ∧ s.inFlight = [] ∧ s.passed = c.passed) ?_
      ⟨houtbox, hnone, rfl⟩ hrun
    rintro s op s' ⟨houtbox, hnone, hpassed⟩ hstep
    have hidle : ∀ i, ¬ i < s.inFlight.length := by simp [hnone]
    cases moves_of_step hstep with
    | write message => exact ⟨houtbox, hnone, hpassed⟩
    | begin message posted _ hempty => exact absurd hempty houtbox
    | queue message posted _ _ => exact ⟨by simp, hnone, hpassed⟩
    | last i _ _ hi _ => exact absurd hi (hidle i)
    | next i _ _ _ hi _ => exact absurd hi (hidle i)
    | fail i _ _ _ hi _ => exact absurd hi (hidle i)
  exact hstuck.2.2

/-- Two messages, of which the first is not written. -/
theorem not_oneInFlight_failed : ∃ c, runSteps step new
    [.write "a", .write "b", .writeImpl, .writeImpl, .complete 0 true] = some c ∧
    ¬ OneInFlight c := by
  refine ⟨_, rfl, fun h => ?_⟩
  obtain ⟨message, hone, -⟩ := h.busy.mp (by decide)
  cases hone

instance (c : Connection) : ∀ op, Decidable (FailsLast c op)
  | .complete _ true => inferInstanceAs (Decidable (c.outbox.length ≤ 1))
  | .complete _ false | .write _ | .writeImpl => .isTrue trivial

/-- Two messages, of which the second is not written. -/
def twoMessages : List Op :=
  [.write "a", .write "b", .writeImpl, .writeImpl, .complete 0 false, .complete 0 true]

theorem oneInFlight_iff_failsLast_twoMessages :
    runSteps step new twoMessages = some ⟨[], [], [], ["a", "b"], ["a", "b"]⟩ ∧
      OneInFlight ⟨[], [], [], ["a", "b"], ["a", "b"]⟩ :=
  ⟨rfl, (oneInFlight_iff_failsLast (show runSteps step new twoMessages = _ from rfl)).mpr (by decide)⟩

end Connection

end CxxLab.AsioLab
