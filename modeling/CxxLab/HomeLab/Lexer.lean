import CxxLab.Lib.Lookahead

/-!
# `home_lab/lexer.cpp`, `main.cpp` — tokens

`gettok` looks at one character more than belongs to its token, and keeps it in a static variable for
the next call. At the first call it is a blank, which is skipped. A character is a byte, the classes are
those of the "C" locale, as there is no other that the program sets, and the end of input is in none of
them.

What `strtod` makes of a text is given from outside.
-/

set_option autoImplicit false

namespace CxxLab.HomeLab

open CxxLab.Lib

/-! ## Characters -/

def isspace (c : UInt8) : Bool := c == 32 || 9 ≤ c && c ≤ 13

def isdigit (c : UInt8) : Bool := 48 ≤ c && c ≤ 57

def isalpha (c : UInt8) : Bool := 65 ≤ c && c ≤ 90 || 97 ≤ c && c ≤ 122

def isalnum (c : UInt8) : Bool := isalpha c || isdigit c

/-- `'.'`. -/
def dot : UInt8 := 46

/-- `'#'`. -/
def hash : UInt8 := 35

/-- `END`, a backquote. -/
def END : UInt8 := 96

/-- A digit or a dot. -/
def isNum (c : UInt8) : Bool := isdigit c || c == dot

/-- Neither the end of a line nor a backquote. -/
def inComment (c : UInt8) : Bool := c != 10 && c != 13 && c != END

/-- The characters of a keyword. -/
def ascii (s : String) : List UInt8 := s.toList.map fun c => UInt8.ofNat c.toNat

/-! ## Tokens -/

variable {D : Type}

inductive Token (D : Type) where
  | tokUndef
  | tokEof
  | tokDef
  | tokExtern
  | tokId (nameValue : List UInt8)
  | tokNum (numValue : D)
  deriving DecidableEq

namespace Token

/-- `Token::Valid`. -/
def valid : Token D → Bool
  | tokUndef => false
  | _ => true

/-- `Token::End`. -/
def isEnd : Token D → Bool
  | tokEof => true
  | _ => false

/-- The token of a word. -/
def ofWord (idstr : List UInt8) : Token D :=
  if idstr = ascii "def" then tokDef
  else if idstr = ascii "extern" then tokExtern
  else tokId idstr

end Token

variable (strtod : List UInt8 → D)

/-! ## The lexer -/

/-- `last_char`, which is looked at, and what `getchar` will give. -/
abbrev Lexer := Lookahead UInt8

/-- What a lexer is before the first call. -/
def Lexer.start (input : List UInt8) : Lexer := ⟨some 32, input, nofun⟩

theorem length_comment {lexer : Lexer} {c : UInt8} (h : (lexer.scan isspace).2.look = some c) :
    ((lexer.scan isspace).2.next.scan inComment).2.pending.length < lexer.pending.length := by
  have hskip := Lookahead.length_scan_le isspace lexer
  have hcomment := Lookahead.length_scan_le inComment (lexer.scan isspace).2.next
  have hnext := Lookahead.length_next h
  omega

/-- `gettok`. The loops that collect a text begin with the character looked at, which is in their
class, or behind it. -/
def gettok (lexer : Lexer) : Token D × Lexer :=
  let l := (lexer.scan isspace).2
  match _h : l.look with
  | none => (.tokEof, l)
  | some lastChar =>
    if isalpha lastChar then
      let (cs, l) := l.next.scan isalnum
      (.ofWord (lastChar :: cs), l)
    else if isdigit lastChar || lastChar == dot then
      let (numStr, l) := l.scan isNum
      (.tokNum (strtod numStr), l)
    else if lastChar == hash then
      let l' := (l.next.scan inComment).2
      match l'.look with
      | none => (.tokEof, l')
      | some c => if c != END then gettok l' else (.tokEof, l')
    else if lastChar == END then (.tokEof, l)
    else (.tokUndef, l)
termination_by lexer.pending.length
decreasing_by exact length_comment ‹_›

section Gettok

variable {strtod} {c : UInt8} {cs : List UInt8}

theorem gettok_space (hc : isspace c = true) :
    gettok strtod (.ofPending (c :: cs)) = gettok strtod (.ofPending cs) := by
  have hscan : (Lookahead.scan isspace (.ofPending (c :: cs))).2 =
      (Lookahead.scan isspace (.ofPending cs)).2 := by
    rw [Lookahead.scan_ofPending, Lookahead.scan_ofPending, List.dropWhile_cons_of_pos hc]
  rw [gettok, gettok, hscan]

theorem gettok_nil : gettok strtod (.ofPending []) = (.tokEof, .ofPending []) := by
  rw [gettok, Lookahead.scan_ofPending]
  rfl

theorem scan_of_not_space (hc : isspace c = false) :
    (Lookahead.scan isspace (.ofPending (c :: cs))).2 = .ofPending (c :: cs) := by
  rw [Lookahead.scan_ofPending, List.dropWhile_cons_of_neg (by simp [hc])]

theorem gettok_end : gettok strtod (.ofPending (END :: cs)) = (.tokEof, .ofPending (END :: cs)) := by
  rw [gettok, scan_of_not_space (by decide)]
  rfl

theorem gettok_word (hspace : isspace c = false) (hc : isalpha c = true) :
    gettok strtod (.ofPending (c :: cs)) =
      (.ofWord (c :: cs.takeWhile isalnum), .ofPending (cs.dropWhile isalnum)) := by
  rw [gettok, scan_of_not_space hspace]
  show (if isalpha c = true then _ else _) = _
  rw [if_pos hc, Lookahead.next_ofPending_cons, Lookahead.scan_ofPending]

theorem gettok_num (hspace : isspace c = false) (halpha : isalpha c = false) (hc : isNum c = true) :
    gettok strtod (.ofPending (c :: cs)) =
      (.tokNum (strtod (c :: cs.takeWhile isNum)), .ofPending (cs.dropWhile isNum)) := by
  rw [gettok, scan_of_not_space hspace]
  show (if isalpha c = true then _ else if isNum c = true then _ else _) = _
  rw [halpha, if_neg Bool.false_ne_true, if_pos hc, Lookahead.scan_ofPending,
    List.takeWhile_cons_of_pos hc, List.dropWhile_cons_of_pos hc]

/-- A comment does not matter either. -/
theorem gettok_comment : gettok strtod (.ofPending (hash :: cs)) =
    gettok strtod (.ofPending (cs.dropWhile inComment)) := by
  rw [gettok, scan_of_not_space (by decide)]
  show (match ((Lookahead.ofPending (hash :: cs)).next.scan inComment).2.look with
    | none => (Token.tokEof, ((Lookahead.ofPending (hash :: cs)).next.scan inComment).2)
    | some c =>
      if c != END then gettok strtod ((Lookahead.ofPending (hash :: cs)).next.scan inComment).2
      else (.tokEof, ((Lookahead.ofPending (hash :: cs)).next.scan inComment).2)) = _
  rw [Lookahead.next_ofPending_cons, Lookahead.scan_ofPending]
  cases cs.dropWhile inComment with
  | nil => exact gettok_nil.symm
  | cons c rest =>
    show (if (c != END) = true then _ else _) = _
    by_cases hc : c = END
    · subst hc
      exact gettok_end.symm
    · rw [if_pos (bne_iff_ne.mpr hc)]

theorem gettok_undef (hspace : isspace c = false) (halpha : isalpha c = false)
    (hnum : isNum c = false) (hhash : c ≠ hash) (hend : c ≠ END) :
    gettok strtod (.ofPending (c :: cs)) = (.tokUndef, .ofPending (c :: cs)) := by
  rw [gettok, scan_of_not_space hspace]
  show (if isalpha c = true then _ else if isNum c = true then _ else
    if (c == hash) = true then _ else if (c == END) = true then _ else _) = _
  rw [halpha, hnum, beq_eq_false_iff_ne.mpr hhash, beq_eq_false_iff_ne.mpr hend]
  rfl

end Gettok

/-- **Induction on an input**, in the pieces that `gettok` takes of it. -/
theorem input_induction {P : List UInt8 → Prop} (nil : P [])
    (space : ∀ c cs, isspace c = true → P cs → P (c :: cs))
    (word : ∀ c cs, isspace c = false → isalpha c = true → P (cs.dropWhile isalnum) → P (c :: cs))
    (num : ∀ c cs, isspace c = false → isalpha c = false → isNum c = true →
      P (cs.dropWhile isNum) → P (c :: cs))
    (comment : ∀ cs, P (cs.dropWhile inComment) → P (hash :: cs))
    (quote : ∀ cs, P (END :: cs))
    (undef : ∀ c cs, isspace c = false → isalpha c = false → isNum c = false → c ≠ hash → c ≠ END →
      P (c :: cs)) :
    ∀ cs, P cs := by
  have hlength : ∀ (n : Nat) (cs : List UInt8), cs.length ≤ n → P cs := by
    intro n
    induction n with
    | zero =>
      intro cs hcs
      rw [List.eq_nil_of_length_eq_zero (Nat.le_zero.mp hcs)]
      exact nil
    | succ n ih =>
      intro cs hcs
      cases cs with
      | nil => exact nil
      | cons c cs =>
        have hle : cs.length ≤ n := Nat.le_of_succ_le_succ hcs
        have hrest : ∀ p : UInt8 → Bool, (cs.dropWhile p).length ≤ n := fun p =>
          Nat.le_trans (List.length_dropWhile_le p cs) hle
        cases hspace : isspace c with
        | true => exact space c cs hspace (ih cs hle)
        | false =>
          cases halpha : isalpha c with
          | true => exact word c cs hspace halpha (ih _ (hrest _))
          | false =>
            cases hnum : isNum c with
            | true => exact num c cs hspace halpha hnum (ih _ (hrest _))
            | false =>
              by_cases hhash : c = hash
              · exact hhash ▸ comment cs (ih _ (hrest _))
              · by_cases hend : c = END
                · exact hend ▸ quote cs
                · exact undef c cs hspace halpha hnum hhash hend
  exact fun cs => hlength cs.length cs (Nat.le_refl _)

/-- The condition of the loop in `main`. -/
def Token.goesOn (tok : Token D) : Bool := tok.valid && !tok.isEnd

/-- A token with which the loop goes on has taken something of the input. -/
theorem length_gettok (l : Lexer) : (gettok strtod l).1.goesOn = true →
    (gettok strtod l).2.pending.length < l.pending.length := by
  rw [← Lookahead.ofPending_pending l, Lookahead.pending_ofPending]
  induction l.pending using input_induction with
  | nil =>
    rw [gettok_nil]
    exact nofun
  | space c cs hc ih =>
    rw [gettok_space hc]
    exact fun hgoes => Nat.lt_succ_of_lt (ih hgoes)
  | word c cs hspace hc ih =>
    rw [gettok_word hspace hc, Lookahead.pending_ofPending]
    exact fun _ => Nat.lt_succ_of_le (List.length_dropWhile_le _ _)
  | num c cs hspace halpha hc ih =>
    rw [gettok_num hspace halpha hc, Lookahead.pending_ofPending]
    exact fun _ => Nat.lt_succ_of_le (List.length_dropWhile_le _ _)
  | comment cs ih =>
    rw [gettok_comment]
    intro hgoes
    exact Nat.lt_succ_of_le (Nat.le_trans (Nat.le_of_lt (ih hgoes)) (List.length_dropWhile_le _ _))
  | quote cs =>
    rw [gettok_end]
    exact nofun
  | undef c cs hspace halpha hnum hhash hend =>
    rw [gettok_undef hspace halpha hnum hhash hend]
    exact nofun

/-- The loop in `main`: the tokens, and the one it ends with. -/
def mainLoop (tokens : List (Token D)) (lexer : Lexer) : List (Token D) × Token D :=
  match _h : gettok strtod lexer with
  | (currTok, l) =>
    if _hgoes : currTok.goesOn then mainLoop (tokens ++ [currTok]) l
    else (tokens, currTok)
termination_by lexer.pending.length
decreasing_by
  have hlength := length_gettok strtod lexer
  rw [_h] at hlength
  exact hlength _hgoes

/-- All tokens of an input, with the last one. -/
def tokens (input : List UInt8) : List (Token D) :=
  (mainLoop strtod [] (.start input)).1 ++ [(mainLoop strtod [] (.start input)).2]

/-! ## The reference -/

/-- **Maximal munch**: what the tokens of an input are.

A rule takes the longest stretch of its kind from the front of the input (`Munch`), and the next one
goes on behind it. White space and comments give no token. The list ends with the first token that
ends the loop of `main`, and what is behind that is not looked at. -/
inductive Tokenises : List UInt8 → List (Token D) → Prop where
  | space {c : UInt8} {cs : List UInt8} {toks : List (Token D)} : isspace c = true →
    Tokenises cs toks → Tokenises (c :: cs) toks
  | comment {cs text rest : List UInt8} {toks : List (Token D)} : Munch inComment cs text rest →
    Tokenises rest toks → Tokenises (hash :: cs) toks
  | word {c : UInt8} {cs text rest : List UInt8} {toks : List (Token D)} : isalpha c = true →
    Munch isalnum cs text rest → Tokenises rest toks →
    Tokenises (c :: cs) (.ofWord (c :: text) :: toks)
  | num {c : UInt8} {cs text rest : List UInt8} {toks : List (Token D)} : isNum c = true →
    Munch isNum cs text rest → Tokenises rest toks →
    Tokenises (c :: cs) (.tokNum (strtod (c :: text)) :: toks)
  | eof : Tokenises [] [.tokEof]
  | quote {cs : List UInt8} : Tokenises (END :: cs) [.tokEof]
  | undef {c : UInt8} {cs : List UInt8} : isspace c = false → isalpha c = false → isNum c = false →
    c ≠ hash → c ≠ END → Tokenises (c :: cs) [.tokUndef]

section Reference

variable {strtod} {c : UInt8} {cs : List UInt8} {toks : List (Token D)}

/-- Every input has tokens. -/
theorem exists_tokenises (strtod : List UInt8 → D) (input : List UInt8) :
    ∃ toks, Tokenises strtod input toks := by
  induction input using input_induction with
  | nil => exact ⟨_, .eof⟩
  | space c cs hc ih =>
    obtain ⟨toks, h⟩ := ih
    exact ⟨toks, .space hc h⟩
  | word c cs hspace hc ih =>
    obtain ⟨toks, h⟩ := ih
    exact ⟨_, .word hc (munch_iff.mpr ⟨rfl, rfl⟩) h⟩
  | num c cs hspace halpha hc ih =>
    obtain ⟨toks, h⟩ := ih
    exact ⟨_, .num hc (munch_iff.mpr ⟨rfl, rfl⟩) h⟩
  | comment cs ih =>
    obtain ⟨toks, h⟩ := ih
    exact ⟨toks, .comment (munch_iff.mpr ⟨rfl, rfl⟩) h⟩
  | quote cs => exact ⟨_, .quote⟩
  | undef c cs hspace halpha hnum hhash hend => exact ⟨_, .undef hspace halpha hnum hhash hend⟩

/-! The classes have no character in common. -/

theorem isspace_of_isalpha (hc : isalpha c = true) : isspace c = false := by
  grind [isalpha, isspace]

theorem isspace_of_isNum (hc : isNum c = true) : isspace c = false := by
  grind [isNum, isdigit, dot, isspace]

theorem isalpha_of_isNum (hc : isNum c = true) : isalpha c = false := by
  grind [isNum, isdigit, dot, isalpha]

/-- One turn of the loop in `main`. -/
theorem mainLoop_of_gettok {lexer l : Lexer} {tok : Token D} (h : gettok strtod lexer = (tok, l))
    (before : List (Token D)) : mainLoop strtod before lexer =
      if tok.goesOn then mainLoop strtod (before ++ [tok]) l else (before, tok) := by
  rw [mainLoop, h]
  rfl

theorem mainLoop_congr {l l' : Lexer} (h : gettok strtod l = gettok strtod l')
    (before : List (Token D)) : mainLoop strtod before l = mainLoop strtod before l' := by
  rw [mainLoop_of_gettok h]
  exact (mainLoop_of_gettok rfl before).symm

theorem goesOn_ofWord (text : List UInt8) : (Token.ofWord text : Token D).goesOn = true := by
  rw [Token.ofWord]
  split
  · rfl
  · split <;> rfl

/-- **The loop collects the tokens** of what is pending. -/
theorem mainLoop_of_tokenises (h : Tokenises strtod cs toks) : ∀ before : List (Token D),
    (mainLoop strtod before (.ofPending cs)).1 ++ [(mainLoop strtod before (.ofPending cs)).2] =
      before ++ toks := by
  induction h with
  | space hc _ ih =>
    intro before
    rw [mainLoop_congr (gettok_space hc)]
    exact ih before
  | comment hmunch _ ih =>
    intro before
    obtain ⟨-, rfl⟩ := munch_iff.mp hmunch
    rw [mainLoop_congr gettok_comment]
    exact ih before
  | word hc hmunch _ ih =>
    intro before
    obtain ⟨rfl, rfl⟩ := munch_iff.mp hmunch
    rw [mainLoop_of_gettok (gettok_word (isspace_of_isalpha hc) hc), goesOn_ofWord, if_pos rfl, ih,
      List.append_assoc]
    rfl
  | num hc hmunch _ ih =>
    intro before
    obtain ⟨rfl, rfl⟩ := munch_iff.mp hmunch
    rw [mainLoop_of_gettok (gettok_num (isspace_of_isNum hc) (isalpha_of_isNum hc) hc)]
    exact (ih _).trans (List.append_assoc _ _ _)
  | eof =>
    intro before
    rw [mainLoop_of_gettok gettok_nil]
    rfl
  | quote =>
    intro before
    rw [mainLoop_of_gettok gettok_end]
    rfl
  | undef hspace halpha hnum hhash hend =>
    intro before
    rw [mainLoop_of_gettok (gettok_undef hspace halpha hnum hhash hend)]
    rfl

/-- **The lexer is maximal-munch tokenisation.** For every input and every `strtod`, the tokens that
the loop of `main` gets, with the one that ends it, are those that `Tokenises` relates to the input,
and no others. That relation is not made from `gettok`: it says of each token that it is the longest
stretch of its kind behind what is skipped, where `gettok` reads one character too many and keeps it
for the next call. -/
theorem tokenises_iff (input : List UInt8) :
    Tokenises strtod input toks ↔ tokens strtod input = toks := by
  have hall : ∀ {toks : List (Token D)}, Tokenises strtod input toks →
      tokens strtod input = toks := by
    intro toks h
    exact mainLoop_of_tokenises (.space (c := 32) (by decide) h) []
  constructor
  · exact hall
  · rintro rfl
    obtain ⟨toks, h⟩ := exists_tokenises strtod input
    rw [hall h]
    exact h

end Reference

end CxxLab.HomeLab
