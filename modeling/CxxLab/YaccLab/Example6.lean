import CxxLab.YaccLab.Scan
import CxxLab.DbLab.Tokener

/-!
# `yacc_lab/example6.l` — a scanner with a start condition

`lex.yy.c` is what flex made of `example6.l`. Its tables do what the rules say (`yylex_writes`).
-/

set_option autoImplicit false

namespace CxxLab.YaccLab.Example6

open CxxLab.Lib CxxLab.Lib.Scanner CxxLab.DbLab Flex

/-! ## The tables -/

/-- `yy_ec`. -/
def yyEc (x : UInt8) : Nat :=
  match x with
  | 0 => 0
  | 10 => 2
  | 45 => 3
  | 46 => 4
  | 97 => 6
  | 99 => 7
  | 101 => 8
  | 102 => 9
  | 108 => 10
  | 111 => 11
  | 112 => 12
  | 115 => 13
  | 116 => 14
  | 120 => 15
  | x => if 48 ≤ x ∧ x ≤ 57 then 5 else 1

def tables : Tables where
  yyAccept := [0, 0, 0, 0, 0, 7, 6, 5, 4, 6, 2, 4, 4, 0, 0, 4, 0, 3, 0, 0, 0, 0, 0, 0, 0, 0, 0, 1, 0]
  yyEc := yyEc
  yyMeta := [0, 1, 1, 1, 1, 1, 1, 1, 1, 1, 1, 1, 1, 1, 1, 1]
  yyBase := [0, 0, 5, 1, 9, 35, 36, 36, 29, 18, 36, 11, 27, 19, 25, 13, 21, 23, 20, 12, 22, 15, 13, 11,
    15, 6, 6, 36, 36, 0]
  yyDef := [0, 29, 29, 2, 2, 28, 28, 28, 28, 28, 28, 28, 28, 28, 28, 28, 28, 28, 28, 28, 28, 28, 28, 28,
    28, 28, 28, 28, 0, 28]
  yyNxt := [0, 6, 28, 10, 7, 8, 11, 28, 9, 7, 8, 10, 28, 9, 11, 14, 15, 14, 15, 27, 26, 25, 24, 23, 22,
    21, 20, 19, 17, 18, 17, 16, 12, 13, 12, 28, 5, 28, 28, 28, 28, 28, 28, 28, 28, 28, 28, 28, 28, 28, 28,
    28]
  yyChk := [0, 29, 0, 3, 1, 1, 3, 0, 1, 2, 2, 4, 0, 2, 4, 11, 11, 15, 15, 26, 25, 24, 23, 22, 21, 20, 19,
    18, 17, 16, 14, 13, 12, 9, 8, 5, 28, 28, 28, 28, 28, 28, 28, 28, 28, 28, 28, 28, 28, 28, 28, 28]
  templates := 29
  jamBase := 36
  jamState := 28
  endOfBuffer := 7

/-! ## The rules -/

/-- `INITIAL` and `expect`, as `yy_start` has them. -/
def initial : Nat := 1

def expect : Nat := 3

/-- The characters of a string. -/
def word (cs : List Char) : Pattern UInt8 :=
  cs.foldr (fun c p => .seq (.oneOf [(UInt8.ofNat c.toNat, UInt8.ofNat c.toNat)]) p) .nil

/-- `[0-9]+` -/
def digits : Pattern UInt8 := .seq (.oneOf [(48, 57)]) (.star (.oneOf [(48, 57)]))

/-- The rules outside `expect`. The last one is the default rule. -/
def initialRules : Rules UInt8 :=
  [(1, word ['e', 'x', 'p', 'e', 'c', 't', '-', 'f', 'l', 'o', 'a', 't', 's']), (4, digits), (5, word ['.']),
    (6, .oneOf [(0, 255)])]

/-- The rules that only hold in `expect`. -/
def expectRules : Rules UInt8 :=
  [(2, word [Char.ofNat 10]), (3, .seq digits (.seq (word ['.']) digits))]

def rules (start : Nat) : Rules UInt8 :=
  if start = expect then expectRules ++ initialRules else initialRules

/-! ## The actions -/

/-- The conversions of the C library that the actions use. -/
structure Libc where
  /-- What `%d` writes for `atoi` of a text. -/
  atoi : Str → Str
  /-- What `%f` writes for `atof` of a text. -/
  atof : Str → Str

/-- What an action writes, and `yy_start` after it. -/
def action (libc : Libc) (yyStart yyAct : Nat) (yytext : Str) : Str × Option Nat :=
  match yyAct with
  | 1 => ([], some expect)
  | 2 => ([], some initial)
  | 3 => (lit "found a float, = " ++ libc.atof yytext ++ lit "\n", some yyStart)
  | 4 => (lit "found an integer " ++ libc.atoi yytext ++ lit "\n", some yyStart)
  | 5 => (lit "found a dot\n", some yyStart)
  -- `ECHO`
  | _ => (yytext, some yyStart)

/-- `yylex` on a file that is read in pieces. -/
def yylex (libc : Libc) (fuel : Nat) (file : List Piece) : Option Str :=
  (Buffer.ofFile file initial).lex tables (action libc) fuel

/-! ## The tables do what the rules say -/

/-- The states, each with a start condition and a word that leads there from it. -/
def words : List (Nat × Nat × List UInt8) :=
  [(1, initial, []), (3, expect, []), (6, initial, [97]), (7, initial, [46]), (8, initial, [48]),
    (9, initial, [101]), (10, expect, [10]), (11, expect, [48]), (12, initial, [48, 48]), (13, initial, [101, 120]),
    (14, expect, [48, 46]), (15, expect, [48, 48]), (16, initial, [101, 120, 112]), (17, expect, [48, 46, 48]),
    (18, initial, [101, 120, 112, 101]), (19, initial, [101, 120, 112, 101, 99]),
    (20, initial, [101, 120, 112, 101, 99, 116]), (21, initial, [101, 120, 112, 101, 99, 116, 45]),
    (22, initial, [101, 120, 112, 101, 99, 116, 45, 102]), (23, initial, [101, 120, 112, 101, 99, 116, 45, 102, 108]),
    (24, initial, [101, 120, 112, 101, 99, 116, 45, 102, 108, 111]),
    (25, initial, [101, 120, 112, 101, 99, 116, 45, 102, 108, 111, 97]),
    (26, initial, [101, 120, 112, 101, 99, 116, 45, 102, 108, 111, 97, 116]),
    (27, initial, [101, 120, 112, 101, 99, 116, 45, 102, 108, 111, 97, 116, 115]), (28, initial, [97, 97])]

/-- What is left of the rules in a state. -/
def left (s : Nat) : Rules UInt8 :=
  match words.lookup s with
  | some (start, w) => afterAll (rules start) w
  | none => []

def states : List Nat := words.map Prod.fst

/-- Of each class of characters one. -/
def few : List UInt8 := [0, 1, 10, 45, 46, 48, 97, 99, 101, 102, 108, 111, 112, 115, 116, 120]

theorem checked : tables.Checked left states 5 few (classes (rules expect)) where
  all := by decide +kernel
  classes := by decide +kernel
  accepts := by decide +kernel
  closed := by decide +kernel
  follows := by decide +kernel
  next := by decide +kernel
  accept := by decide +kernel
  base := by decide +kernel
  pos := by decide
  nul := by decide +kernel
  eob_accept := by decide
  eob_base := by decide
  eob_next := by decide +kernel
  jam := by decide +kernel

theorem starts : ∀ q ∈ [initial, expect], tables.Starts states q := by
  intro q hq
  rcases List.mem_pair.mp hq with rfl | rfl
  · exact checked.starts (by decide) (by decide) (by decide) (by decide +kernel)
  · exact checked.starts (by decide) (by decide) (by decide) (by decide +kernel)

theorem action_start (libc : Libc) : ∀ q ∈ [initial, expect], ∀ yyAct yytext q',
    (action libc q yyAct yytext).2 = some q' → q' ∈ [initial, expect] := by
  intro q hq yyAct yytext q' h
  unfold action at h
  split at h <;> cases h <;> first | exact hq | decide

/-- **What `example6` writes**: whatever is in the file and in whatever pieces it is read, `yylex` comes to its
end, having written what the actions of the longest matches write, one after the other. -/
theorem yylex_writes (libc : Libc) (file : List Piece) (k : Nat) : ∃ out,
    yylex libc (4 * (file.flatMap Piece.bytes).length + 5 + k) file = some out ∧
      ∀ out', Lexed rules (action libc) initial (file.flatMap Piece.bytes) out' ↔ out' = out :=
  Buffer.lex_ofFile checked.valid starts (by decide) (action_start libc) file (by decide) (Nat.le_add_right _ _)

end CxxLab.YaccLab.Example6
