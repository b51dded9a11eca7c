import CxxLab.YaccLab.Scan
import CxxLab.DbLab.Tokener

/-!
# `compiler/llvm-lab/tokens.l` — the tokens of a small language

The tables of `lex.yy.c` do what the rules say (`yylex_returns`). The rules themselves say less than their names:
an identifier is two characters long, as the second class of its pattern has no `*`, and the point in a
number is any character but a newline, as it is not quoted.
-/

set_option autoImplicit false

namespace CxxLab.Compiler.Tokens

open CxxLab.Lib CxxLab.Lib.Scanner CxxLab.DbLab CxxLab.YaccLab.Flex

/-! ## The tables -/

/-- `yy_ec`. -/
def yyEc (x : UInt8) : Nat :=
  match x with
  | 0 => 0
  | 9 => 2
  | 10 => 3
  | 32 => 2
  | 33 => 4
  | 40 => 5
  | 41 => 6
  | 42 => 7
  | 43 => 8
  | 44 => 9
  | 45 => 10
  | 46 => 11
  | 47 => 12
  | 60 => 14
  | 61 => 15
  | 62 => 16
  | 95 => 17
  | 123 => 18
  | 125 => 19
  | x =>
    if 48 ≤ x ∧ x ≤ 57 then 13
    else if 65 ≤ x ∧ x ≤ 90 then 17
    else if 97 ≤ x ∧ x ≤ 122 then 17
    else 1

def tables : Tables where
  yyAccept := [0, 0, 0, 23, 21, 1, 1, 21, 11, 12, 19, 17, 16, 18, 15, 20, 21, 7, 4, 9, 21, 13, 14, 6, 3, 3, 8,
    5, 10, 2, 3, 3, 0]
  yyEc := yyEc
  yyMeta := [0, 1, 1, 2, 1, 1, 1, 1, 1, 1, 1, 1, 1, 1, 1, 1, 1, 1, 1, 1]
  yyBase := [0, 0, 0, 32, 33, 33, 33, 16, 33, 33, 33, 33, 33, 33, 33, 33, 17, 14, 13, 12, 7, 33, 33, 33, 13, 12,
    33, 33, 33, 33, 10, 9, 33, 20]
  yyDef := [0, 32, 1, 32, 32, 32, 32, 32, 32, 32, 32, 32, 32, 32, 32, 32, 33, 32, 32, 32, 32, 32, 32, 32, 32, 33,
    32, 32, 32, 32, 32, 33, 0, 32]
  yyNxt := [0, 4, 5, 6, 7, 8, 9, 10, 11, 12, 13, 14, 15, 16, 17, 18, 19, 20, 21, 22, 29, 24, 31, 30, 29, 31, 30,
    28, 27, 26, 25, 23, 32, 3, 32, 32, 32, 32, 32, 32, 32, 32, 32, 32, 32, 32, 32, 32, 32, 32, 32, 32, 32]
  yyChk := [0, 1, 1, 1, 1, 1, 1, 1, 1, 1, 1, 1, 1, 1, 1, 1, 1, 1, 1, 1, 20, 33, 31, 30, 20, 25, 24, 19, 18, 17,
    16, 7, 3, 32, 32, 32, 32, 32, 32, 32, 32, 32, 32, 32, 32, 32, 32, 32, 32, 32, 32, 32, 32]
  templates := 33
  jamBase := 33
  jamState := 32
  endOfBuffer := 23

/-! ## The rules -/

/-- `[a-zA-Z_]` -/
def letter : List (UInt8 × UInt8) := [(97, 122), (65, 90), (95, 95)]

/-- `[a-zA-Z0-9_]` -/
def letterOrDigit : List (UInt8 × UInt8) := [(97, 122), (65, 90), (48, 57), (95, 95)]

/-- `[0-9]` -/
def digit : List (UInt8 × UInt8) := [(48, 57)]

/-- `.`: any character but a newline. -/
def dot : List (UInt8 × UInt8) := [(0, 9), (11, 255)]

def char (c : UInt8) : Pattern UInt8 := .oneOf [(c, c)]

/-- The rules, the last one being the default rule. -/
def rules : Rules UInt8 :=
  [(1, .oneOf [(32, 32), (9, 9), (10, 10)]),
    (2, .seq (.oneOf letter) (.oneOf letterOrDigit)),
    (3, .seq (.oneOf digit) (.seq (.star (.oneOf digit)) (.seq (.oneOf dot) (.star (.oneOf digit))))),
    (4, char 61), (5, .seq (char 61) (char 61)), (6, .seq (char 33) (char 61)), (7, char 60),
    (8, .seq (char 60) (char 61)), (9, char 62), (10, .seq (char 62) (char 61)), (11, char 40), (12, char 41),
    (13, char 123), (14, char 125), (15, char 46), (16, char 44), (17, char 43), (18, char 45), (19, char 42),
    (20, char 47), (21, .oneOf dot), (22, .oneOf [(0, 255)])]

/-! ## The actions -/

inductive Token where
  | tidentifier
  | tdoudble
  | tequaual
  | tceq
  | tcne
  | tclt
  | tcle
  | tcgt
  | tcge
  | tlparen
  | trparen
  | tlbrace
  | trbrace
  | tdot
  | tcomma
  | tplus
  | tminus
  | tmul
  | tdiv
  deriving DecidableEq

/-- What is seen of a scanner. -/
inductive Event where
  /-- A token that a call returns, with the text that `SAVE_TOKEN` saves. -/
  | returned (token : Token) (string : Option Str)
  | printed (text : Str)
  deriving DecidableEq

/-- What an action comes to, and `yy_start` after it unless it terminates. -/
def action (yyStart yyAct : Nat) (yytext : Str) : List Event × Option Nat :=
  match yyAct with
  | 1 => ([], some yyStart)
  | 2 => ([.returned .tidentifier (some yytext)], some yyStart)
  | 3 => ([.returned .tdoudble (some yytext)], some yyStart)
  | 4 => ([.returned .tequaual none], some yyStart)
  | 5 => ([.returned .tceq none], some yyStart)
  | 6 => ([.returned .tcne none], some yyStart)
  | 7 => ([.returned .tclt none], some yyStart)
  | 8 => ([.returned .tcle none], some yyStart)
  | 9 => ([.returned .tcgt none], some yyStart)
  | 10 => ([.returned .tcge none], some yyStart)
  | 11 => ([.returned .tlparen none], some yyStart)
  | 12 => ([.returned .trparen none], some yyStart)
  | 13 => ([.returned .tlbrace none], some yyStart)
  | 14 => ([.returned .trbrace none], some yyStart)
  | 15 => ([.returned .tdot none], some yyStart)
  | 16 => ([.returned .tcomma none], some yyStart)
  | 17 => ([.returned .tplus none], some yyStart)
  | 18 => ([.returned .tminus none], some yyStart)
  | 19 => ([.returned .tmul none], some yyStart)
  | 20 => ([.returned .tdiv none], some yyStart)
  | 21 => ([.printed (lit "Unkown token!\n")], none)
  -- `ECHO`
  | _ => ([.printed yytext], some yyStart)

/-- `INITIAL`, as `yy_start` has it. -/
def initial : Nat := 1

/-- The calls of `yylex` on a file that is read in pieces, up to the one that returns 0. -/
def yylex (fuel : Nat) (file : List Piece) : Option (List Event) :=
  (Buffer.ofFile file initial).lex tables action fuel

/-! ## The tables do what the rules say -/

/-- The states, each with a word that leads there. -/
def words : List (Nat × List UInt8) :=
  [(1, []), (4, [124]), (5, [9]), (6, [10]), (7, [33]), (8, [40]), (9, [41]), (10, [42]), (11, [43]),
    (12, [44]), (13, [45]), (14, [46]), (15, [47]), (16, [48]), (17, [60]), (18, [61]), (19, [62]),
    (20, [97]), (21, [123]), (22, [125]), (23, [33, 61]), (24, [48, 97]), (25, [48, 48]), (26, [60, 61]),
    (27, [61, 61]), (28, [62, 61]), (29, [97, 97]), (30, [48, 97, 48]), (31, [48, 48, 48]), (32, [97, 123])]

/-- What is left of the rules in a state. -/
def left (s : Nat) : Rules UInt8 :=
  match words.lookup s with
  | some w => afterAll rules w
  | none => []

def states : List Nat := words.map Prod.fst

/-- Of each class of characters one. -/
def few : List UInt8 := [0, 9, 10, 32, 33, 40, 41, 42, 43, 44, 45, 46, 47, 48, 60, 61, 62, 65, 95, 97, 123, 125, 1]

theorem checked : tables.Checked left states 3 few (classes rules) where
  all := by decide +kernel
  classes := by decide +kernel
  accepts := by decide +kernel
  closed := by decide +kernel
  follows := by decide +kernel
  next := by decide +kernel
  accept := by decide +kernel
  base := by decide +kernel
  pos := by decide
  nul := by decide +kernel
  eob_accept := by decide
  eob_base := by decide
  eob_next := by decide +kernel
  jam := by decide +kernel

theorem starts : ∀ q ∈ [initial], tables.Starts states q := by
  intro q hq
  obtain rfl := List.mem_singleton.mp hq
  exact checked.starts (by decide) (by decide) (by decide) (by decide +kernel)

theorem action_start : ∀ q ∈ [initial], ∀ yyAct yytext q',
    (action q yyAct yytext).2 = some q' → q' ∈ [initial] := by
  intro q hq yyAct yytext q' h
  unfold action at h
  split at h <;> cases h <;> exact hq

/-- **What the scanner returns**: whatever is in the file and in whatever pieces it is read, the calls of
`yylex` return the tokens of the longest matches up to the end, or up to a character that no rule knows. -/
theorem yylex_returns (file : List Piece) (k : Nat) : ∃ events,
    yylex (4 * (file.flatMap Piece.bytes).length + 5 + k) file = some events ∧
      ∀ events', Lexed (fun _ => rules) action initial (file.flatMap Piece.bytes) events' ↔ events' = events :=
  Buffer.lex_ofFile checked.valid starts (by decide +kernel) action_start file (by decide) (Nat.le_add_right _ _)

end CxxLab.Compiler.Tokens
