import CxxLab.Lib.Scanner

/-!
# `yacc_lab/lex.yy.c`, `compiler/llvm-lab/lex.yy.c` — the scanner around the tables

Both files are the same program around different tables. `yylex` goes from state to state until it jams,
and backs up to the last state that accepts. The text is not all there: it comes in pieces, and the scanner
finds the end of a piece as a character 0, which it cannot tell from a 0 in the text before it looks where it
is. Then it reads the next piece and does what it has read so far once more.

The actions of the rules are not here; what they come to is given to `lex`.

Two limits of the machine are not modelled. `yyleng`, `yy_n_chars` and the buffer's size are `int`s in the
source and numbers without bound here, so a match of 2^31 characters is read like any other; and `malloc`
and `realloc` always give what they are asked for, so that none of flex's fatal errors ("out of dynamic
memory in yy_create_buffer()" and its like) is ever raised. The theorems about the two scanners are about
texts for which neither happens.
-/

set_option autoImplicit false

namespace CxxLab.YaccLab.Flex

/-! ## The tables -/

/-- The tables, and the numbers that stand in the code with them. -/
structure Tables where
  yyAccept : List Nat
  yyEc : UInt8 → Nat
  yyMeta : List Nat
  yyBase : List Nat
  yyDef : List Nat
  yyNxt : List Nat
  yyChk : List Nat
  /-- From this state on the class is looked up in `yy_meta`. -/
  templates : Nat
  /-- `yy_base` of the states that have no transition. -/
  jamBase : Nat
  jamState : Nat
  /-- `YY_END_OF_BUFFER`. -/
  endOfBuffer : Nat

namespace Tables

variable (t : Tables)

/-- The `while` over `yy_chk`, and the transition it finds. -/
def follow : Nat → Nat → Nat → Option Nat
  | 0, _, _ => none
  | fuel + 1, state, c => do
    let index := (← t.yyBase[state]?) + c
    if (← t.yyChk[index]?) = state then t.yyNxt[index]?
    else
      let state ← t.yyDef[state]?
      let c ← if t.templates ≤ state then t.yyMeta[c]? else some c
      follow fuel state c

/-- The transition of a state on a class. -/
def next (state c : Nat) : Option Nat := t.follow t.yyDef.length state c

/-- The class of a character that is known to be of the text. -/
def ec (x : UInt8) : Nat := if x ≠ 0 then t.yyEc x else 1

end Tables

/-! ## The buffer -/

/-- What a call of `YY_INPUT` reads when it is not at the end of the file. -/
structure Piece where
  bytes : List UInt8
  ne_nil : bytes ≠ []

/-- The variables of the scanner: the buffer from `yytext` on without the two 0 at its end, `yy_c_buf_p` and
`yy_last_accepting_cpos` counted from `yytext`, and the file still to be read. -/
structure Buffer where
  text : List UInt8
  cBufP : Nat
  file : List Piece
  /-- `YY_BUFFER_EOF_PENDING`. -/
  eofPending : Bool
  yyStart : Nat
  lastAcceptingState : Nat
  lastAcceptingCpos : Nat

/-- Where `yylex` goes on. -/
inductive Label where
  | yyMatch (state : Nat)
  | yyFindAction (state : Nat)
  /-- An action of the rules. -/
  | doAction (yyAct : Nat)
  /-- `YY_STATE_EOF`. -/
  | terminate
  deriving DecidableEq

namespace Buffer

/-- The character at a place of the buffer. -/
def char (b : Buffer) (i : Nat) : Option UInt8 :=
  if i < b.text.length then b.text[i]? else if i ≤ b.text.length + 1 then some 0 else none

/-- A state that accepts is remembered, with the place. -/
def note (t : Tables) (b : Buffer) (state cp : Nat) : Option Buffer := do
  let accept ← t.yyAccept[state]?
  return if accept ≠ 0 then { b with lastAcceptingState := state, lastAcceptingCpos := cp } else b

/-! ## Matching -/

/-- `yy_match`. -/
def yyMatch (t : Tables) : Nat → Buffer → Nat → Option (Buffer × Nat)
  | 0, _, _ => none
  | fuel + 1, b, state => do
    let c := t.yyEc (← b.char b.cBufP)
    let b ← b.note t state b.cBufP
    let state ← t.next state c
    let b := { b with cBufP := b.cBufP + 1 }
    if (← t.yyBase[state]?) = t.jamBase then return (b, state) else yyMatch t fuel b state

/-- The loop of `yy_get_previous_state`, from place `i` on. -/
def replay (t : Tables) : List UInt8 → Nat → Buffer → Nat → Option (Buffer × Nat)
  | [], _, b, state => some (b, state)
  | x :: xs, i, b, state => do
    let b ← b.note t state i
    replay t xs (i + 1) b (← t.next state (t.ec x))

/-- `yy_get_previous_state`. -/
def yyGetPreviousState (t : Tables) (b : Buffer) : Option (Buffer × Nat) :=
  replay t (b.text.take b.cBufP) 0 b b.yyStart

/-- `yy_try_NUL_trans`. -/
def yyTryNulTrans (t : Tables) (b : Buffer) (state : Nat) : Option (Buffer × Nat) := do
  let b ← b.note t state b.cBufP
  let state ← t.next state 1
  return (b, if state = t.jamState then 0 else state)

/-! ## The end of the buffer -/

/-- What `yy_get_next_buffer` returns. -/
inductive EobAct where
  | continueScan
  | endOfFile
  | lastMatch

/-- `yy_get_next_buffer`. -/
def yyGetNextBuffer (b : Buffer) : Option (Buffer × EobAct) :=
  -- Otherwise it is "end of buffer missed".
  if b.cBufP ≤ b.text.length + 1 then
    let moved := b.text.take (b.cBufP - 1)
    match b.eofPending, b.file with
    | false, piece :: file => some ({ b with text := moved ++ piece.bytes, file := file }, .continueScan)
    | _, _ =>
      if moved.length = 0 then some ({ b with text := [], eofPending := false }, .endOfFile)
      else some ({ b with text := moved, eofPending := true }, .lastMatch)
  else none

/-- The action `YY_END_OF_BUFFER`. -/
def endOfBuffer (t : Tables) (b : Buffer) : Option (Buffer × Label) := do
  let amount := b.cBufP - 1
  if b.cBufP ≤ b.text.length then
    -- This was really a 0.
    let (b, state) ← { b with cBufP := amount }.yyGetPreviousState t
    let (b, nextState) ← b.yyTryNulTrans t state
    if nextState ≠ 0 then return ({ b with cBufP := b.cBufP + 1 }, .yyMatch nextState)
    else return (b, .yyFindAction state)
  else
    let (b, act) ← b.yyGetNextBuffer
    match act with
    | .endOfFile => return ({ b with cBufP := 0 }, .terminate)
    | .continueScan =>
      let (b, state) ← { b with cBufP := amount }.yyGetPreviousState t
      return (b, .yyMatch state)
    | .lastMatch =>
      let (b, state) ← { b with cBufP := b.text.length }.yyGetPreviousState t
      return (b, .yyFindAction state)

/-! ## `yylex` -/

/-- From one label to the next. -/
def step (t : Tables) (b : Buffer) : Label → Option (Buffer × Label)
  | .yyMatch state => do
    let (b, state) ← b.yyMatch t (b.text.length + 2) state
    return (b, .yyFindAction state)
  | .yyFindAction state => do
    let yyAct ← t.yyAccept[state]?
    if yyAct ≠ 0 then
      if yyAct = t.endOfBuffer then b.endOfBuffer t else return (b, .doAction yyAct)
    else
      let b := { b with cBufP := b.lastAcceptingCpos }
      let yyAct ← t.yyAccept[b.lastAcceptingState]?
      -- With 0 it backs up for ever.
      if yyAct = 0 then none
      else if yyAct = t.endOfBuffer then b.endOfBuffer t
      else return (b, .doAction yyAct)
  | label => some (b, label)

/-- To the next action. -/
def scan (t : Tables) : Nat → Buffer → Label → Option (Buffer × Option Nat)
  | 0, _, _ => none
  | _ + 1, b, .doAction yyAct => some (b, some yyAct)
  | _ + 1, b, .terminate => some (b, none)
  | fuel + 1, b, label => do
    let (b, label) ← b.step t label
    b.scan t fuel label

/-- `yytext` after an action. -/
def yytext (b : Buffer) : List UInt8 := b.text.take b.cBufP

/-- The next text begins where this one ends. -/
def restart (b : Buffer) : Buffer := { b with text := b.text.drop b.cBufP, cBufP := 0 }

/-- `yylex` as often as there are actions, those that return a token as well as those that do not. An action
comes to some output, and to `yy_start` unless it terminates. -/
def lex {β : Type} (t : Tables) (act : Nat → Nat → List UInt8 → List β × Option Nat) :
    Nat → Buffer → Option (List β)
  | 0, _ => none
  | fuel + 1, b => do
    let (b, r) ← b.scan t fuel (.yyMatch b.yyStart)
    match r with
    | none => return []
    | some yyAct =>
      let (out, start) := act b.yyStart yyAct b.yytext
      match start with
      | none => return out
      | some start => return out ++ (← lex t act fuel { b.restart with yyStart := start })

/-- Before anything has been read. -/
def ofFile (file : List Piece) (yyStart : Nat) : Buffer := ⟨[], 0, file, false, yyStart, 0, 0⟩

end Buffer

end CxxLab.YaccLab.Flex
