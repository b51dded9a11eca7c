import CxxLab.YaccLab.Flex

/-!
# Scanning takes the longest match

What `yylex` does between two actions, for tables that are as they should be (`Valid`): it takes the longest
prefix of the text that a rule matches, and the first rule that matches it, in however many pieces the text
comes and whatever is in it (`Buffer.scan_eq`). So a whole file is read as the rules have it
(`Buffer.lex_ofFile`).
-/

set_option autoImplicit false

namespace CxxLab.YaccLab.Flex

open CxxLab.Lib CxxLab.Lib.Scanner

namespace Tables

/-- The transition on a character of the text. -/
def go (t : Tables) (state : Nat) (x : UInt8) : Nat := (t.next state (t.ec x)).getD t.jamState

/-- The rule a state accepts. -/
def rule (t : Tables) (state : Nat) : Option Nat := t.yyAccept[state]?.bind fun n => if n ≠ 0 then some n else none

/-- What has to be known of tables: `left` is what is left of the rules in each of the states `S`, and
`eob` is where they go on a 0 that is not looked up as a character of the text. -/
structure Valid (t : Tables) (left : Nat → Rules UInt8) (S : List Nat) (eob : Nat) : Prop where
  certified : Certified t.go t.rule left S
  next : ∀ s ∈ S, ∀ x, t.next s (t.ec x) = some (t.go s x)
  accept : ∀ s ∈ S, t.yyAccept[s]? ≠ none ∧ t.yyAccept[s]? ≠ some t.endOfBuffer
  base : ∀ s ∈ S, ∃ n, t.yyBase[s]? = some n ∧
    (n = t.jamBase → s ≠ t.jamState → (t.rule s).isSome ∧ ∀ x, t.go s x = t.jamState)
  pos : ∀ s ∈ S, s ≠ 0
  nul : ∀ s ∈ S, s ≠ t.jamState → t.next s (t.yyEc 0) = some eob
  eob_accept : t.yyAccept[eob]? = some t.endOfBuffer ∧ t.endOfBuffer ≠ 0
  eob_base : ∃ n, t.yyBase[eob]? = some n ∧ n ≠ t.jamBase
  eob_next : ∀ x, t.next eob (t.yyEc x) = some t.jamState
  jam : t.yyBase[t.jamState]? = some t.jamBase ∧ t.yyAccept[t.jamState]? = some 0 ∧ left t.jamState = []

/-- The finite part of it: each character is like one of `few`, for the tables and for the classes of the
rules. -/
structure Checked (t : Tables) (left : Nat → Rules UInt8) (S : List Nat) (eob : Nat) (few : List UInt8)
    (cs : List (List (UInt8 × UInt8))) : Prop where
  all : ∀ n < 256, ∃ b ∈ few, t.ec (UInt8.ofNat n) = t.ec b ∧
    ∀ r ∈ cs, Pattern.within (UInt8.ofNat n) r = Pattern.within b r
  classes : ∀ s ∈ S, ∀ r ∈ classes (left s), r ∈ cs
  accepts : ∀ s ∈ S, t.rule s = (done (left s)).min?
  closed : ∀ s ∈ S, ∀ b ∈ few, t.go s b ∈ S
  follows : ∀ s ∈ S, ∀ b ∈ few, Same (after (left s) b) (left (t.go s b))
  next : ∀ s ∈ S, ∀ b ∈ few, (t.next s (t.ec b)).isSome
  accept : ∀ s ∈ S, t.yyAccept[s]? ≠ none ∧ t.yyAccept[s]? ≠ some t.endOfBuffer
  base : ∀ s ∈ S, t.yyBase[s]? ≠ none ∧
    (t.yyBase[s]? = some t.jamBase → s ≠ t.jamState → (t.rule s).isSome ∧ ∀ b ∈ few, t.go s b = t.jamState)
  pos : ∀ s ∈ S, s ≠ 0
  nul : ∀ s ∈ S, s ≠ t.jamState → t.next s (t.yyEc 0) = some eob
  eob_accept : t.yyAccept[eob]? = some t.endOfBuffer ∧ t.endOfBuffer ≠ 0
  eob_base : t.yyBase[eob]? ≠ none ∧ t.yyBase[eob]? ≠ some t.jamBase
  eob_next : ∀ n < 256, t.next eob (t.yyEc (UInt8.ofNat n)) = some t.jamState
  jam : t.yyBase[t.jamState]? = some t.jamBase ∧ t.yyAccept[t.jamState]? = some 0 ∧ left t.jamState = []

theorem forall_byte {p : UInt8 → Prop} (h : ∀ n < 256, p (UInt8.ofNat n)) (x : UInt8) : p x := by
  have hx := h x.toNat x.toNat_lt
  rwa [UInt8.ofNat_toNat] at hx

theorem go_congr {t : Tables} {a b : UInt8} (h : t.ec a = t.ec b) (s : Nat) : t.go s a = t.go s b := by
  rw [go, go, h]

section

variable {t : Tables} {left : Nat → Rules UInt8} {S : List Nat} {eob : Nat} {few : List UInt8}
  {cs : List (List (UInt8 × UInt8))}

theorem Checked.exists_few (h : t.Checked left S eob few cs) (x : UInt8) :
    ∃ b ∈ few, t.ec x = t.ec b ∧ ∀ r ∈ cs, Pattern.within x r = Pattern.within b r :=
  forall_byte (p := fun x => ∃ b ∈ few, t.ec x = t.ec b ∧ ∀ r ∈ cs, Pattern.within x r = Pattern.within b r)
    h.all x

theorem Checked.valid (h : t.Checked left S eob few cs) : t.Valid left S eob where
  certified := by
    refine .of_some few cs (fun a => ?_) h.classes h.accepts h.closed h.follows
    obtain ⟨b, hb, hec, hwithin⟩ := h.exists_few a
    exact ⟨b, hb, go_congr hec, hwithin⟩
  next := by
    intro s hs x
    obtain ⟨b, hb, hec, -⟩ := h.exists_few x
    obtain ⟨s', hs'⟩ := Option.isSome_iff_exists.mp (h.next s hs b hb)
    rw [go, hec, hs']
    rfl
  accept := h.accept
  base := by
    intro s hs
    obtain ⟨hbase, hjam⟩ := h.base s hs
    obtain ⟨n, hn⟩ := Option.ne_none_iff_exists'.mp hbase
    refine ⟨n, hn, fun heq hne => ?_⟩
    obtain ⟨hrule, hall⟩ := hjam (hn.trans (congrArg some heq)) hne
    refine ⟨hrule, fun x => ?_⟩
    obtain ⟨b, hb, hec, -⟩ := h.exists_few x
    rw [go_congr hec]
    exact hall b hb
  pos := h.pos
  nul := h.nul
  eob_accept := h.eob_accept
  eob_base := by
    obtain ⟨hbase, hne⟩ := h.eob_base
    obtain ⟨n, hn⟩ := Option.ne_none_iff_exists'.mp hbase
    exact ⟨n, hn, fun heq => hne (hn.trans (congrArg some heq))⟩
  eob_next := forall_byte (p := fun x => t.next eob (t.yyEc x) = some t.jamState) h.eob_next
  jam := h.jam

end

/-- A state that a text can begin in: every character is matched by some rule. -/
structure Starts (t : Tables) (S : List Nat) (q : Nat) : Prop where
  mem : q ∈ S
  ne_jam : q ≠ t.jamState
  rule : t.rule q = none
  one : ∀ x, (t.rule (t.go q x)).isSome

theorem Checked.starts {t : Tables} {left : Nat → Rules UInt8} {S : List Nat} {eob q : Nat} {few : List UInt8}
    {cs : List (List (UInt8 × UInt8))} (h : t.Checked left S eob few cs) (hmem : q ∈ S) (hne : q ≠ t.jamState)
    (hrule : t.rule q = none) (hone : ∀ b ∈ few, (t.rule (t.go q b)).isSome) : t.Starts S q := by
  refine ⟨hmem, hne, hrule, fun x => ?_⟩
  obtain ⟨b, hb, hec, -⟩ := h.exists_few x
  rw [go_congr hec]
  exact hone b hb

end Tables

/-! ## The states along a text -/

section

variable {t : Tables} {left : Nat → Rules UInt8} {S : List Nat} {eob q : Nat} {w : List UInt8}

/-- The state after so many characters. -/
def stateAt (t : Tables) (q : Nat) (w : List UInt8) (k : Nat) : Nat := (w.take k).foldl t.go q

theorem stateAt_zero : stateAt t q w 0 = q := by rw [stateAt, List.take_zero]; rfl

theorem stateAt_succ {k : Nat} {x : UInt8} (hx : w[k]? = some x) :
    stateAt t q w (k + 1) = t.go (stateAt t q w k) x := by
  obtain ⟨hk, rfl⟩ := List.getElem?_eq_some_iff.mp hx
  rw [stateAt, List.take_succ_eq_append_getElem hk, List.foldl_append]
  rfl

variable (hv : t.Valid left S eob) (hq : t.Starts S q)

include hv hq

theorem stateAt_mem (k : Nat) : stateAt t q w k ∈ S := hv.certified.run_mem _ hq.mem

theorem rule_stateAt (k : Nat) : t.rule (stateAt t q w k) = firstRule (left q) (w.take k) :=
  hv.certified.accept_run _ hq.mem

/-- After a jam no rule matches any more. -/
theorem rule_of_jam {j k : Nat} (hjam : stateAt t q w j = t.jamState) (hjk : j ≤ k) :
    t.rule (stateAt t q w k) = none := by
  have hsplit : w.take j ++ (w.take k).drop j = w.take k := by
    conv_rhs => rw [← List.take_append_drop j (w.take k), List.take_take, Nat.min_eq_left hjk]
  have hstate : stateAt t q w k = ((w.take k).drop j).foldl t.go t.jamState := by
    rw [← hjam, stateAt, stateAt, ← List.foldl_append, hsplit]
  rw [hstate, hv.certified.accept_run _ (hjam ▸ stateAt_mem hv hq j), hv.jam.2.2]
  refine firstRule_eq_none_iff.mpr fun n hn => ?_
  obtain ⟨p, hp, -⟩ := hn
  cases hp


end

/-! ## What is noted -/

namespace Buffer

/-- The buffer after `note`. -/
def noted (t : Tables) (b : Buffer) (state cp : Nat) : Buffer :=
  if (t.rule state).isSome then { b with lastAcceptingState := state, lastAcceptingCpos := cp } else b

/-- The text, the file and where the text begins are as they were. -/
structure SameText (b b' : Buffer) : Prop where
  text : b'.text = b.text
  file : b'.file = b.file
  eofPending : b'.eofPending = b.eofPending
  yyStart : b'.yyStart = b.yyStart

theorem SameText.trans {b b' b'' : Buffer} (h : SameText b b') (h' : SameText b' b'') : SameText b b'' :=
  ⟨h'.text.trans h.text, h'.file.trans h.file, h'.eofPending.trans h.eofPending, h'.yyStart.trans h.yyStart⟩

variable {t : Tables} {left : Nat → Rules UInt8} {S : List Nat} {eob q : Nat} {w : List UInt8}

theorem noted_sameText (b : Buffer) (state cp : Nat) : SameText b (b.noted t state cp) := by
  unfold noted
  split <;> exact ⟨rfl, rfl, rfl, rfl⟩

theorem noted_cBufP (b : Buffer) (state cp : Nat) : (b.noted t state cp).cBufP = b.cBufP := by
  unfold noted
  split <;> rfl

theorem note_eq (b : Buffer) {state : Nat} (cp : Nat) (h : t.yyAccept[state]? ≠ none) :
    b.note t state cp = some (b.noted t state cp) := by
  obtain ⟨n, hn⟩ := Option.ne_none_iff_exists'.mp h
  rw [note, noted, Tables.rule, hn]
  by_cases hzero : n = 0 <;> simp [hzero]

/-- Where the scanner last saw a rule match, and that no longer prefix before `p` does. -/
structure Noted (t : Tables) (q : Nat) (w : List UInt8) (b : Buffer) (p : Nat) : Prop where
  pos : 0 < b.lastAcceptingCpos
  lt : b.lastAcceptingCpos < p
  state : b.lastAcceptingState = stateAt t q w b.lastAcceptingCpos
  rule : (t.rule b.lastAcceptingState).isSome
  none : ∀ j, b.lastAcceptingCpos < j → j < p → t.rule (stateAt t q w j) = none

theorem Noted.congr {b b' : Buffer} {p : Nat} (h : Noted t q w b p)
    (hstate : b'.lastAcceptingState = b.lastAcceptingState)
    (hcpos : b'.lastAcceptingCpos = b.lastAcceptingCpos) : Noted t q w b' p := by
  obtain ⟨hpos, hlt, hs, hrule, hnone⟩ := h
  rw [← hcpos] at hpos hlt hnone hs
  rw [← hstate] at hs hrule
  exact ⟨hpos, hlt, hs, hrule, hnone⟩

/-- The scanner at place `p` of the text. -/
theorem Noted.step (hq : t.Starts S q) {b : Buffer} {p : Nat} (h : 2 ≤ p → Noted t q w b p)
    (hp : p ≤ w.length) : 2 ≤ p + 1 → Noted t q w (b.noted t (stateAt t q w p) p) (p + 1) := by
  intro htwo
  unfold noted
  split
  · next hrule =>
    have hpos : 0 < p := by omega
    exact ⟨hpos, Nat.lt_succ_self p, rfl, hrule, fun j hj hj' => absurd (Nat.lt_succ_iff.mp hj') (Nat.not_le.mpr hj)⟩
  · next hrule =>
    have hne : p ≠ 1 := by
      rintro rfl
      have hget : w[0]? = some w[0] := List.getElem?_eq_getElem hp
      rw [stateAt_succ hget, stateAt_zero] at hrule
      exact hrule (hq.one _)
    obtain ⟨hpos, hlt, hs, hr, hnone⟩ := h (by omega)
    refine ⟨hpos, by omega, hs, hr, fun j hj hj' => ?_⟩
    rcases Nat.lt_succ_iff_lt_or_eq.mp hj' with hj' | rfl
    · exact hnone j hj hj'
    · exact Option.not_isSome_iff_eq_none.mp hrule

/-- Read again from `yytext` on, the scanner is in the state it was in, and has noted the same. -/
theorem replay_eq (hv : t.Valid left S eob) (hq : t.Starts S q) {p : Nat} (hp : p ≤ w.length) :
    ∀ (n i : Nat) (b : Buffer), i + n = p → (2 ≤ i → Noted t q w b i) →
    ∃ b', replay t ((w.take p).drop i) i b (stateAt t q w i) = some (b', stateAt t q w p) ∧
      SameText b b' ∧ b'.cBufP = b.cBufP ∧ (2 ≤ p → Noted t q w b' p) := by
  intro n
  induction n with
  | zero =>
    rintro i b rfl hnoted
    rw [List.drop_eq_nil_of_le (by rw [List.length_take]; omega)]
    exact ⟨b, rfl, ⟨rfl, rfl, rfl, rfl⟩, rfl, hnoted⟩
  | succ n ih =>
    intro i b hi hnoted
    have hlt : i < (w.take p).length := by rw [List.length_take]; omega
    have hget : w[i]? = some (w.take p)[i] := by
      rw [List.getElem_take]
      exact List.getElem?_eq_getElem (by omega)
    obtain ⟨b', hreplay, hsame, hcp, hnoted'⟩ := ih (i + 1) (b.noted t (stateAt t q w i) i) (by omega)
      (Noted.step hq hnoted (by omega))
    refine ⟨b', ?_, (noted_sameText b _ _).trans hsame, hcp.trans (noted_cBufP b _ _), hnoted'⟩
    rw [List.drop_eq_getElem_cons hlt, replay, note_eq _ _ (hv.accept _ (stateAt_mem hv hq i)).1]
    show Option.bind (t.next _ _) _ = _
    rw [hv.next _ (stateAt_mem hv hq i), ← stateAt_succ hget]
    exact hreplay

/-! ## Matching -/

/-- The buffer, as far as it has been read, and the file are the text `w`. -/
structure Reads (b : Buffer) (w : List UInt8) : Prop where
  text : b.text ++ b.file.flatMap Piece.bytes = w
  file : b.eofPending = true → b.file = []

theorem Reads.congr {b b' : Buffer} (h : Reads b w) (hsame : SameText b b') : Reads b' w :=
  ⟨by rw [hsame.text, hsame.file]; exact h.text, by rw [hsame.eofPending, hsame.file]; exact h.file⟩

theorem Reads.length_le {b : Buffer} (h : Reads b w) : b.text.length ≤ w.length := by
  rw [← h.text, List.length_append]
  exact Nat.le_add_right _ _

theorem Reads.length_file_le {b : Buffer} (h : Reads b w) : b.file.length ≤ w.length := by
  have hpieces : ∀ file : List Piece, file.length ≤ (file.flatMap Piece.bytes).length := by
    intro file
    induction file with
    | nil => exact Nat.le_refl 0
    | cons piece file ih =>
      have hpos := List.length_pos_of_ne_nil piece.ne_nil
      rw [List.flatMap_cons, List.length_append, List.length_cons]
      omega
  have hle := hpieces b.file
  rw [← h.text, List.length_append]
  omega

theorem Reads.getElem? {b : Buffer} (h : Reads b w) {p : Nat} (hp : p < b.text.length) :
    b.text[p]? = w[p]? := by
  rw [← h.text, List.getElem?_append_left hp]

theorem Reads.take {b : Buffer} (h : Reads b w) {p : Nat} (hp : p ≤ b.text.length) :
    b.text.take p = w.take p := by
  rw [← h.text, List.take_append_of_le_length hp]

/-- `yylex` is at place `p` and goes on matching. -/
structure Live (t : Tables) (q : Nat) (w : List UInt8) (b : Buffer) (p : Nat) : Prop where
  reads : Reads b w
  yyStart : b.yyStart = q
  cBufP : b.cBufP = p
  le : p ≤ b.text.length
  ne_jam : stateAt t q w p ≠ t.jamState
  noted : 2 ≤ p → Noted t q w b p

/-- `yy_match` has stopped on a character of the text. -/
structure Jammed (t : Tables) (q : Nat) (w : List UInt8) (b b' : Buffer) (p : Nat) : Prop where
  same : SameText b b'
  cBufP : b'.cBufP = p
  le : p ≤ b.text.length
  pos : 0 < p
  base : t.yyBase[stateAt t q w p]? = some t.jamBase
  noted : 2 ≤ p → Noted t q w b' p

/-- `yy_match` has stopped on a 0 at place `p`, one character behind it. -/
structure AtNul (t : Tables) (eob q : Nat) (w : List UInt8) (b b' : Buffer) (p : Nat) : Prop where
  same : SameText b b'
  lastState : b'.lastAcceptingState = eob
  lastCpos : b'.lastAcceptingCpos = p + 1
  le : p ≤ b.text.length
  ne_jam : stateAt t q w p ≠ t.jamState
  nul : p < b.text.length → w[p]? = some 0

/-- There is a character to read, or one of the two 0 behind the text. -/
theorem exists_char {b : Buffer} {p : Nat} (hle : p ≤ b.text.length + 1) : ∃ x, b.char p = some x := by
  by_cases hlt : p < b.text.length
  · rw [char, if_pos hlt]
    exact ⟨_, List.getElem?_eq_getElem hlt⟩
  · rw [char, if_neg hlt, if_pos hle]
    exact ⟨0, rfl⟩

theorem yyMatch_nul (hv : t.Valid left S eob) (hq : t.Starts S q) {b : Buffer} {p : Nat} (fuel : Nat)
    (hlive : Live t q w b p) (hchar : b.char p = some 0) : ∃ b',
    b.yyMatch t (fuel + 2) (stateAt t q w p) = some (b', t.jamState) ∧ AtNul t eob q w b b' p := by
  have hmem := stateAt_mem (w := w) hv hq p
  obtain ⟨n, hbase, hne⟩ := hv.eob_base
  obtain ⟨y, hy⟩ := exists_char (Nat.succ_le_succ hlive.le)
  have heob : t.yyAccept[eob]? ≠ none := by rw [hv.eob_accept.1]; exact Option.some_ne_none _
  have hrule : (t.rule eob).isSome := by
    rw [Tables.rule, hv.eob_accept.1, Option.bind_some, if_pos hv.eob_accept.2]
    rfl
  have hchar' (c : Nat) : char { b.noted t (stateAt t q w p) p with cBufP := c } = b.char := by
    unfold char
    rw [(noted_sameText b _ _).text]
  refine ⟨{ { b.noted t (stateAt t q w p) p with cBufP := p + 1 }.noted t eob (p + 1) with cBufP := p + 2 },
    ?_, ?_⟩
  · rw [yyMatch, hlive.cBufP, hchar, Option.bind_eq_bind, Option.bind_some,
      note_eq _ _ (hv.accept _ hmem).1]
    show Option.bind (t.next _ _) _ = _
    rw [hv.nul _ hmem hlive.ne_jam, Option.bind_some, noted_cBufP, hlive.cBufP]
    show Option.bind t.yyBase[eob]? _ = _
    rw [hbase, Option.bind_some, if_neg hne, yyMatch, hchar', hy, Option.bind_eq_bind, Option.bind_some,
      note_eq _ _ heob]
    show Option.bind (t.next _ _) _ = _
    rw [hv.eob_next, Option.bind_some]
    show Option.bind t.yyBase[t.jamState]? _ = _
    rw [hv.jam.1, Option.bind_some, if_pos rfl, noted_cBufP]
    rfl
  · have hfirst := noted_sameText (t := t) b (stateAt t q w p) p
    have hsecond := noted_sameText (t := t) { b.noted t (stateAt t q w p) p with cBufP := p + 1 } eob (p + 1)
    refine ⟨⟨hsecond.text.trans hfirst.text, hsecond.file.trans hfirst.file,
      hsecond.eofPending.trans hfirst.eofPending, hsecond.yyStart.trans hfirst.yyStart⟩, ?_, ?_, hlive.le,
      hlive.ne_jam, fun hlt => ?_⟩
    · rw [noted, if_pos hrule]
    · rw [noted, if_pos hrule]
    · rw [← hlive.reads.getElem? hlt, ← hchar, char, if_pos hlt]

theorem lt_of_char {b : Buffer} {p : Nat} {x : UInt8} (hle : p ≤ b.text.length) (hchar : b.char p = some x)
    (hx : x ≠ 0) : p < b.text.length := by
  by_contra hge
  rw [char, if_neg hge, if_pos (by omega)] at hchar
  exact hx (Option.some.inj hchar).symm

/-- What the loop does with a character that is not 0. -/
theorem yyMatch_char (hv : t.Valid left S eob) (hq : t.Starts S q) {b : Buffer} {p : Nat} {x : UInt8}
    (hlive : Live t q w b p) (hchar : b.char p = some x) (hget : w[p]? = some x) (hx : x ≠ 0) (fuel : Nat) :
    b.yyMatch t (fuel + 1) (stateAt t q w p) =
      Option.bind t.yyBase[stateAt t q w (p + 1)]? fun n =>
        if n = t.jamBase then
          some ({ b.noted t (stateAt t q w p) p with cBufP := p + 1 }, stateAt t q w (p + 1))
        else yyMatch t fuel { b.noted t (stateAt t q w p) p with cBufP := p + 1 } (stateAt t q w (p + 1)) := by
  have hmem := stateAt_mem (w := w) hv hq p
  have hec : t.yyEc x = t.ec x := by rw [Tables.ec, if_pos hx]
  rw [yyMatch, hlive.cBufP, hchar, Option.bind_eq_bind, Option.bind_some, note_eq _ _ (hv.accept _ hmem).1]
  show Option.bind (t.next _ _) _ = _
  rw [hec, hv.next _ hmem, ← stateAt_succ hget, Option.bind_some, noted_cBufP, hlive.cBufP]
  rfl

theorem Live.noted_next (hq : t.Starts S q) {b : Buffer} {p : Nat} (hlive : Live t q w b p) (hp : p ≤ w.length)
    (htwo : 2 ≤ p + 1) : Noted t q w { b.noted t (stateAt t q w p) p with cBufP := p + 1 } (p + 1) :=
  (Noted.step hq hlive.noted hp htwo).congr rfl rfl

/-- **Where `yy_match` stops.** -/
theorem yyMatch_stops (hv : t.Valid left S eob) (hq : t.Starts S q) :
    ∀ (fuel : Nat) {b : Buffer} {p : Nat}, Live t q w b p → b.text.length + 2 ≤ fuel + p →
    (∃ b' p', b.yyMatch t fuel (stateAt t q w p) = some (b', stateAt t q w p') ∧ Jammed t q w b b' p') ∨
    ∃ b' p', b.yyMatch t fuel (stateAt t q w p) = some (b', t.jamState) ∧ p ≤ p' ∧
      AtNul t eob q w b b' p' := by
  intro fuel
  induction fuel with
  | zero =>
    intro b p hlive hfuel
    have hle := hlive.le
    omega
  | succ fuel ih =>
    intro b p hlive hfuel
    have hle := hlive.le
    obtain ⟨x, hchar⟩ := exists_char (Nat.le_succ_of_le hle)
    by_cases hx : x = 0
    · subst hx
      obtain ⟨fuel, rfl⟩ : ∃ m, fuel = m + 1 := ⟨fuel - 1, by omega⟩
      obtain ⟨b', hb', hnul⟩ := yyMatch_nul hv hq fuel hlive hchar
      exact Or.inr ⟨b', p, hb', Nat.le_refl p, hnul⟩
    · have hlt := lt_of_char hle hchar hx
      have hget : w[p]? = some x := by rw [← hlive.reads.getElem? hlt, ← hchar, char, if_pos hlt]
      have hstep := yyMatch_char hv hq hlive hchar hget hx fuel
      have hsame := noted_sameText (t := t) b (stateAt t q w p) p
      have hsame : SameText b { b.noted t (stateAt t q w p) p with cBufP := p + 1 } :=
        ⟨hsame.text, hsame.file, hsame.eofPending, hsame.yyStart⟩
      have hnoted := hlive.noted_next hq (Nat.le_of_lt (Nat.lt_of_lt_of_le hlt hlive.reads.length_le))
      obtain ⟨n, hbase, -⟩ := hv.base _ (stateAt_mem (w := w) hv hq (p + 1))
      rw [hstep, hbase, Option.bind_some]
      by_cases hjam : n = t.jamBase
      · subst hjam
        rw [if_pos rfl]
        exact Or.inl ⟨_, p + 1, rfl, hsame, rfl, hlt, Nat.succ_pos p, hbase, hnoted⟩
      · rw [if_neg hjam]
        have hne : stateAt t q w (p + 1) ≠ t.jamState := by
          intro heq
          rw [heq, hv.jam.1] at hbase
          exact hjam (Option.some.inj hbase).symm
        have hlive' : Live t q w { b.noted t (stateAt t q w p) p with cBufP := p + 1 } (p + 1) :=
          ⟨hlive.reads.congr hsame, hsame.yyStart.trans hlive.yyStart, rfl, by rw [hsame.text]; exact hlt, hne,
            hnoted⟩
        rcases ih hlive' (by rw [hsame.text]; omega) with ⟨b', p', hb', hj⟩ | ⟨b', p', hb', hp', hnul⟩
        · refine Or.inl ⟨b', p', hb', hsame.trans hj.same, hj.cBufP, ?_, hj.pos, hj.base, hj.noted⟩
          rw [← hsame.text]
          exact hj.le
        · refine Or.inr ⟨b', p', hb', by omega, hsame.trans hnul.same, hnul.lastState, hnul.lastCpos, ?_,
            hnul.ne_jam, ?_⟩
          · rw [← hsame.text]
            exact hnul.le
          · rw [← hsame.text]
            exact hnul.nul

/-! ## The action -/

/-- The last state that accepts is known, and no longer prefix matches. -/
structure Final (t : Tables) (q : Nat) (w : List UInt8) (b : Buffer) (p : Nat) : Prop where
  reads : Reads b w
  yyStart : b.yyStart = q
  cBufP : b.cBufP = p
  le : p ≤ b.text.length
  pos : 0 < p
  noted : t.rule (stateAt t q w p) = none → Noted t q w b p
  last : ∀ j, p < j → j ≤ w.length → t.rule (stateAt t q w j) = none

/-- Rule `n` has been found, and its text is the longest that a rule matches. -/
structure Taken (rs : Rules UInt8) (q : Nat) (w : List UInt8) (b : Buffer) (n : Nat) : Prop where
  longest : IsLongest rs w b.cBufP n
  reads : Reads b w
  le : b.cBufP ≤ b.text.length
  yyStart : b.yyStart = q

theorem Taken.yytext {rs : Rules UInt8} {b : Buffer} {n : Nat} (h : Taken rs q w b n) :
    b.yytext = w.take b.cBufP := h.reads.take h.le

theorem Taken.restart {rs : Rules UInt8} {b : Buffer} {n : Nat} (h : Taken rs q w b n) :
    Reads b.restart (w.drop b.cBufP) := by
  refine ⟨?_, h.reads.file⟩
  rw [← h.reads.text, List.drop_append_of_le_length h.le]
  rfl

/-- **The longest match is taken.** -/
theorem yyFindAction_final (hv : t.Valid left S eob) (hq : t.Starts S q) {b : Buffer} {p : Nat}
    (h : Final t q w b p) : ∃ b' n,
      b.step t (.yyFindAction (stateAt t q w p)) = some (b', .doAction n) ∧ Taken (left q) q w b' n := by
  have hmem (k : Nat) := stateAt_mem (w := w) hv hq k
  obtain ⟨n, hn⟩ := Option.ne_none_iff_exists'.mp (hv.accept _ (hmem p)).1
  by_cases hzero : n = 0
  · subst hzero
    have hrule : t.rule (stateAt t q w p) = none := by rw [Tables.rule, hn]; rfl
    obtain ⟨hpos, hlt, hstate, hsome, hnone⟩ := h.noted hrule
    obtain ⟨m, hm⟩ := Option.ne_none_iff_exists'.mp (hv.accept _ (hmem b.lastAcceptingCpos)).1
    have hne : m ≠ 0 := by
      rintro rfl
      rw [hstate, Tables.rule, hm] at hsome
      cases hsome
    have hne_eob : m ≠ t.endOfBuffer := by
      rintro rfl
      exact (hv.accept _ (hmem b.lastAcceptingCpos)).2 hm
    refine ⟨{ b with cBufP := b.lastAcceptingCpos }, m, ?_, ?_, ⟨h.reads.text, h.reads.file⟩, ?_, h.yyStart⟩
    · show Option.bind t.yyAccept[stateAt t q w p]? _ = _
      rw [hn]
      show Option.bind t.yyAccept[b.lastAcceptingState]? _ = _
      rw [hstate, hm, Option.bind_some, if_neg hne, if_neg hne_eob]
      rfl
    · refine isLongest_of_firstRule hpos (Nat.le_of_lt (Nat.lt_of_lt_of_le hlt (h.le.trans h.reads.length_le))) ?_ ?_
      · rw [← rule_stateAt hv hq, Tables.rule, hm]
        exact if_pos hne
      · intro j hj hlen
        rw [← rule_stateAt hv hq]
        rcases Nat.lt_trichotomy j p with hjp | rfl | hjp
        · exact hnone j hj hjp
        · exact hrule
        · exact h.last j hjp hlen
    · exact Nat.le_of_lt (Nat.lt_of_lt_of_le hlt h.le)
  · have hne_eob : n ≠ t.endOfBuffer := by
      rintro rfl
      exact (hv.accept _ (hmem p)).2 hn
    refine ⟨b, n, ?_, ?_, h.reads, by rw [h.cBufP]; exact h.le, h.yyStart⟩
    · show Option.bind t.yyAccept[stateAt t q w p]? _ = _
      rw [hn, Option.bind_some, if_pos hzero, if_neg hne_eob]
      rfl
    · rw [h.cBufP]
      refine isLongest_of_firstRule h.pos (h.le.trans h.reads.length_le) ?_ fun j hj hlen => ?_
      · rw [← rule_stateAt hv hq, Tables.rule, hn]
        exact if_pos hzero
      · rw [← rule_stateAt hv hq]
        exact h.last j hj hlen

theorem rule_one (hq : t.Starts S q) (hlen : 1 ≤ w.length) : t.rule (stateAt t q w 1) ≠ none := by
  have hget : w[0]? = some w[0] := List.getElem?_eq_getElem hlen
  rw [stateAt_succ hget, stateAt_zero]
  exact Option.isSome_iff_ne_none.mp (hq.one _)

/-- What is noted from place 2 on is there whenever it is needed. -/
theorem noted_of_two (hq : t.Starts S q) {b : Buffer} {p : Nat} (hpos : 0 < p) (hlen : p ≤ w.length)
    (h : 2 ≤ p → Noted t q w b p) (hrule : t.rule (stateAt t q w p) = none) : Noted t q w b p := by
  refine h ?_
  by_contra hlt
  obtain rfl : p = 1 := by omega
  exact rule_one hq hlen hrule

theorem Jammed.final (hv : t.Valid left S eob) (hq : t.Starts S q) {b b' : Buffer} {p p' : Nat}
    (hlive : Live t q w b p) (h : Jammed t q w b b' p') : Final t q w b' p' := by
  have hlen : p' ≤ w.length := h.le.trans hlive.reads.length_le
  refine ⟨hlive.reads.congr h.same, h.same.yyStart.trans hlive.yyStart, h.cBufP, by rw [h.same.text]; exact h.le,
    h.pos, noted_of_two hq h.pos hlen h.noted, fun j hj hjlen => ?_⟩
  by_cases hjam : stateAt t q w p' = t.jamState
  · exact rule_of_jam hv hq hjam (Nat.le_of_lt hj)
  · obtain ⟨n, hbase, hall⟩ := hv.base _ (stateAt_mem (w := w) hv hq p')
    have hget : w[p']? = some w[p'] := List.getElem?_eq_getElem (Nat.lt_of_lt_of_le hj hjlen)
    have hn : n = t.jamBase := by
      rw [h.base] at hbase
      exact (Option.some.inj hbase).symm
    exact rule_of_jam (j := p' + 1) hv hq (by rw [stateAt_succ hget]; exact (hall hn hjam).2 _) hj

/-! ## The end of the buffer -/

theorem yyGetPreviousState_eq (hv : t.Valid left S eob) (hq : t.Starts S q) {b : Buffer} (hreads : Reads b w)
    (hstart : b.yyStart = q) (hle : b.cBufP ≤ b.text.length) : ∃ b',
      b.yyGetPreviousState t = some (b', stateAt t q w b.cBufP) ∧ SameText b b' ∧ b'.cBufP = b.cBufP ∧
        (2 ≤ b.cBufP → Noted t q w b' b.cBufP) := by
  obtain ⟨b', hreplay, hrest⟩ := replay_eq (p := b.cBufP) hv hq (hle.trans hreads.length_le) b.cBufP 0 b
    (Nat.zero_add _) (fun h => absurd h (by decide))
  refine ⟨b', ?_, hrest⟩
  rw [yyGetPreviousState, hreads.take hle, hstart]
  rw [List.drop_zero, stateAt_zero] at hreplay
  exact hreplay

/-- How much there is still to read. -/
def ahead (w : List UInt8) (b : Buffer) (p : Nat) : Nat := w.length - p + b.file.length

/-- Where `yylex` can go from the end of the buffer, with less than `m` still to read. -/
inductive Goes (t : Tables) (q : Nat) (w : List UInt8) (m : Nat) : Buffer → Label → Prop
  | live {b : Buffer} {p : Nat} : Live t q w b p → ahead w b p < m → Goes t q w m b (.yyMatch (stateAt t q w p))
  | final {b : Buffer} {p : Nat} : Final t q w b p → Goes t q w m b (.yyFindAction (stateAt t q w p))
  | ended {b : Buffer} : w = [] → Goes t q w m b .terminate

/-- `yy_try_NUL_trans` takes the 0 as the next character. -/
theorem yyTryNulTrans_eq (hv : t.Valid left S eob) (hq : t.Starts S q) {c : Buffer} {p : Nat}
    (hget : w[p]? = some 0) (hcp : c.cBufP = p) :
    yyTryNulTrans t c (stateAt t q w p) = some (c.noted t (stateAt t q w p) p,
      if stateAt t q w (p + 1) = t.jamState then 0 else stateAt t q w (p + 1)) := by
  have hmem := stateAt_mem (w := w) hv hq p
  have hnext : t.next (stateAt t q w p) 1 = some (stateAt t q w (p + 1)) := by
    rw [stateAt_succ hget, ← hv.next _ hmem]
    rfl
  rw [yyTryNulTrans, hcp, note_eq _ _ (hv.accept _ hmem).1]
  show Option.bind (t.next _ _) _ = _
  rw [hnext]
  rfl

/-- A 0 of the text is a character like others. -/
theorem endOfBuffer_nul (hv : t.Valid left S eob) (hq : t.Starts S q) {b b' : Buffer} {p p' : Nat}
    (hlive : Live t q w b p) (hpp : p ≤ p') (h : AtNul t eob q w b b' p') (hlt : p' < b.text.length) :
    ∃ b'' label, endOfBuffer t { b' with cBufP := p' + 1 } = some (b'', label) ∧
      Goes t q w (ahead w b p) b'' label := by
  have hlen := hlive.reads.length_le
  have hget := h.nul hlt
  have hreads : Reads { b' with cBufP := p' } w :=
    ⟨(hlive.reads.congr h.same).text, (hlive.reads.congr h.same).file⟩
  obtain ⟨c, hc, hsame, hcp, hnoted⟩ := yyGetPreviousState_eq hv hq hreads
    (h.same.yyStart.trans hlive.yyStart) (by rw [h.same.text]; exact Nat.le_of_lt hlt)
  have hcp : c.cBufP = p' := hcp
  have hsame' := hsame.trans (noted_sameText (t := t) c (stateAt t q w p') p')
  have hreads' := hreads.congr hsame'
  have hstart' : (c.noted t (stateAt t q w p') p').yyStart = q :=
    hsame'.yyStart.trans (h.same.yyStart.trans hlive.yyStart)
  have htext' : (c.noted t (stateAt t q w p') p').text = b.text := hsame'.text.trans h.same.text
  have hfile' : (c.noted t (stateAt t q w p') p').file = b.file := hsame'.file.trans h.same.file
  have hnoted' := Noted.step hq hnoted (by omega : p' ≤ w.length)
  have hnul := yyTryNulTrans_eq hv hq hget hcp
  have hcp' : (c.noted t (stateAt t q w p') p').cBufP = p' := (noted_cBufP c _ _).trans hcp
  have hstep : endOfBuffer t { b' with cBufP := p' + 1 } =
      if (if stateAt t q w (p' + 1) = t.jamState then 0 else stateAt t q w (p' + 1)) ≠ 0 then
        some ({ c.noted t (stateAt t q w p') p' with cBufP := (c.noted t (stateAt t q w p') p').cBufP + 1 },
          .yyMatch (if stateAt t q w (p' + 1) = t.jamState then 0 else stateAt t q w (p' + 1)))
      else some (c.noted t (stateAt t q w p') p', .yyFindAction (stateAt t q w p')) := by
    show (if p' + 1 ≤ b'.text.length then Option.bind (yyGetPreviousState t { b' with cBufP := p' }) _
      else _) = _
    rw [if_pos (by rw [h.same.text]; exact hlt), hc]
    show Option.bind (yyTryNulTrans t c (stateAt t q w p')) _ = _
    rw [hnul]
    rfl
  rw [hstep]
  by_cases hjam : stateAt t q w (p' + 1) = t.jamState
  · rw [if_pos hjam, if_neg (by decide)]
    have hpos : 0 < p' := by
      by_contra hzero
      obtain rfl : p' = 0 := by omega
      have hnone := rule_of_jam hv hq hjam (Nat.le_refl 1)
      exact rule_one hq (by omega) hnone
    refine ⟨_, _, rfl, .final ⟨hreads', hstart', hcp', ?_, hpos, fun hrule => ?_,
      fun j hj _ => rule_of_jam hv hq hjam hj⟩⟩
    · rw [htext']
      exact Nat.le_of_lt hlt
    · rw [noted, if_neg (by rw [hrule]; decide)]
      exact noted_of_two hq hpos (by omega) hnoted hrule
  · rw [if_neg hjam, if_pos (hv.pos _ (stateAt_mem hv hq _))]
    refine ⟨_, _, rfl, .live ⟨⟨hreads'.text, hreads'.file⟩, hstart', congrArg (· + 1) hcp', ?_, hjam,
      fun htwo => (hnoted' htwo).congr rfl rfl⟩ ?_⟩
    · rw [htext']
      exact hlt
    · show w.length - (p' + 1) + (c.noted t (stateAt t q w p') p').file.length < w.length - p + b.file.length
      rw [hfile']
      omega

theorem yyGetNextBuffer_piece {b : Buffer} {piece : Piece} {file : List Piece}
    (hcp : b.cBufP = b.text.length + 1) (hpending : b.eofPending = false) (hfile : b.file = piece :: file) :
    b.yyGetNextBuffer = some ({ b with text := b.text ++ piece.bytes, file := file }, .continueScan) := by
  unfold yyGetNextBuffer
  dsimp only
  rw [hpending, hfile, hcp, if_pos (Nat.le_refl _), Nat.add_sub_cancel, List.take_length]

theorem yyGetNextBuffer_end {b : Buffer} (hcp : b.cBufP = b.text.length + 1) (hfile : b.file = []) :
    b.yyGetNextBuffer = if b.text.length = 0 then some ({ b with text := [], eofPending := false }, .endOfFile)
      else some ({ b with eofPending := true }, .lastMatch) := by
  unfold yyGetNextBuffer
  dsimp only
  rw [hfile, hcp, if_pos (Nat.le_refl _), Nat.add_sub_cancel, List.take_length]
  cases b.eofPending <;> rfl

/-! What `YY_END_OF_BUFFER` does behind the last character, by what `yy_get_next_buffer` returns. -/

theorem endOfBuffer_continueScan {b c d : Buffer} {state : Nat} (hover : ¬ b.cBufP ≤ b.text.length)
    (hnext : b.yyGetNextBuffer = some (c, .continueScan))
    (hprev : yyGetPreviousState t { c with cBufP := b.cBufP - 1 } = some (d, state)) :
    b.endOfBuffer t = some (d, .yyMatch state) := by
  unfold endOfBuffer
  dsimp only
  rw [if_neg hover, hnext]
  show Option.bind (yyGetPreviousState t { c with cBufP := b.cBufP - 1 }) _ = _
  rw [hprev]
  rfl

theorem endOfBuffer_lastMatch {b c d : Buffer} {state : Nat} (hover : ¬ b.cBufP ≤ b.text.length)
    (hnext : b.yyGetNextBuffer = some (c, .lastMatch))
    (hprev : yyGetPreviousState t { c with cBufP := c.text.length } = some (d, state)) :
    b.endOfBuffer t = some (d, .yyFindAction state) := by
  unfold endOfBuffer
  dsimp only
  rw [if_neg hover, hnext]
  show Option.bind (yyGetPreviousState t { c with cBufP := c.text.length }) _ = _
  rw [hprev]
  rfl

theorem endOfBuffer_endOfFile {b c : Buffer} (hover : ¬ b.cBufP ≤ b.text.length)
    (hnext : b.yyGetNextBuffer = some (c, .endOfFile)) :
    b.endOfBuffer t = some ({ c with cBufP := 0 }, .terminate) := by
  unfold endOfBuffer
  dsimp only
  rw [if_neg hover, hnext]
  rfl

/-- Behind the last character read the next piece is read, if there is one. -/
theorem endOfBuffer_end (hv : t.Valid left S eob) (hq : t.Starts S q) {b b' : Buffer} {p : Nat}
    (hlive : Live t q w b p) (h : AtNul t eob q w b b' b.text.length) : ∃ b'' label,
      endOfBuffer t { b' with cBufP := b.text.length + 1 } = some (b'', label) ∧
        Goes t q w (ahead w b p) b'' label := by
  have hreads := hlive.reads.congr h.same
  have hstart : b'.yyStart = q := h.same.yyStart.trans hlive.yyStart
  have hlen := hlive.reads.length_le
  have hcp : b.text.length + 1 = b'.text.length + 1 := by rw [h.same.text]
  have hover : ¬ b.text.length + 1 ≤ b'.text.length := by
    rw [h.same.text]
    omega
  by_cases hfile : b'.file = []
  · have hw : b'.text = w := by rw [← hreads.text, hfile, List.flatMap_nil, List.append_nil]
    have hnext : yyGetNextBuffer { b' with cBufP := b.text.length + 1 } = _ := yyGetNextBuffer_end hcp hfile
    by_cases hempty : b'.text.length = 0
    · refine ⟨{ b' with text := [], cBufP := 0, eofPending := false }, .terminate, ?_,
        .ended (hw.symm.trans (List.length_eq_zero_iff.mp hempty))⟩
      rw [if_pos hempty] at hnext
      exact endOfBuffer_endOfFile hover hnext
    · have hend : Reads { b' with eofPending := true, cBufP := b'.text.length } w := ⟨hreads.text, fun _ => hfile⟩
      obtain ⟨c, hc, hsame, hccp, hnoted⟩ := yyGetPreviousState_eq hv hq hend hstart (Nat.le_refl _)
      have hpos : 0 < b'.text.length := Nat.pos_of_ne_zero hempty
      refine ⟨c, .yyFindAction (stateAt t q w b'.text.length), ?_, .final ⟨hend.congr hsame,
        hsame.yyStart.trans hstart, hccp, by rw [hsame.text], hpos,
        noted_of_two hq hpos hreads.length_le hnoted, fun j hj hlen => ?_⟩⟩
      · rw [if_neg hempty] at hnext
        exact endOfBuffer_lastMatch hover hnext hc
      · rw [hw] at hj
        omega
  · obtain ⟨piece, file, hfile⟩ := List.exists_cons_of_ne_nil hfile
    have hpending : b'.eofPending = false := by
      cases hpending : b'.eofPending with
      | false => rfl
      | true =>
        rw [hreads.file hpending] at hfile
        cases hfile
    have hmore : Reads { b' with text := b'.text ++ piece.bytes, cBufP := b.text.length, file := file } w := by
      refine ⟨?_, fun heof => ?_⟩
      · rw [← hreads.text, hfile, List.flatMap_cons, List.append_assoc]
      · rw [hpending] at heof
        cases heof
    have hle : b.text.length ≤ (b'.text ++ piece.bytes).length := by
      rw [List.length_append, h.same.text]
      exact Nat.le_add_right _ _
    obtain ⟨c, hc, hsame, hccp, hnoted⟩ := yyGetPreviousState_eq hv hq hmore hstart hle
    have hnext : yyGetNextBuffer { b' with cBufP := b.text.length + 1 } = _ :=
      yyGetNextBuffer_piece hcp hpending hfile
    refine ⟨c, .yyMatch (stateAt t q w b.text.length), ?_, .live ⟨hmore.congr hsame, hsame.yyStart.trans hstart,
      hccp, by rw [hsame.text]; exact hle, h.ne_jam, hnoted⟩ ?_⟩
    · exact endOfBuffer_continueScan hover hnext hc
    · have hcfile : c.file = file := hsame.file
      have hbfile : b.file = piece :: file := h.same.file.symm.trans hfile
      have hle := hlive.le
      rw [ahead, ahead, hcfile, hbfile, List.length_cons]
      omega

/-! ## From action to action -/

/-- From `yy_match` it goes on to a place further on, to the last state that accepts, or to the end. -/
theorem step_step (hv : t.Valid left S eob) (hq : t.Starts S q) {b : Buffer} {p : Nat}
    (hlive : Live t q w b p) : ∃ b' state b'' label,
      b.step t (.yyMatch (stateAt t q w p)) = some (b', .yyFindAction state) ∧
      (Goes t q w (ahead w b p) b' (.yyFindAction state) ∨
        b'.step t (.yyFindAction state) = some (b'', label) ∧ Goes t q w (ahead w b p) b'' label) := by
  rcases yyMatch_stops hv hq (b.text.length + 2) hlive (Nat.le_add_right _ _) with
    ⟨b', p', hmatch, hjam⟩ | ⟨b', p', hmatch, hpp, hnul⟩
  · refine ⟨b', stateAt t q w p', b', .terminate, ?_, Or.inl (.final (hjam.final hv hq hlive))⟩
    show Option.bind (yyMatch t _ _ _) _ = _
    rw [hmatch]
    rfl
  · obtain ⟨b'', label, hend, hgoes⟩ : ∃ b'' label,
        endOfBuffer t { b' with cBufP := p' + 1 } = some (b'', label) ∧ Goes t q w (ahead w b p) b'' label := by
      rcases Nat.lt_or_eq_of_le hnul.le with hlt | rfl
      · exact endOfBuffer_nul hv hq hlive hpp hnul hlt
      · exact endOfBuffer_end hv hq hlive hnul
    refine ⟨b', t.jamState, b'', label, ?_, Or.inr ⟨?_, hgoes⟩⟩
    · show Option.bind (yyMatch t _ _ _) _ = _
      rw [hmatch]
      rfl
    · show Option.bind t.yyAccept[t.jamState]? _ = _
      rw [hv.jam.2.1]
      show Option.bind t.yyAccept[b'.lastAcceptingState]? _ = _
      have haccept : t.yyAccept[b'.lastAcceptingState]? = some t.endOfBuffer := by
        rw [hnul.lastState]
        exact hv.eob_accept.1
      rw [haccept, Option.bind_some, if_neg hv.eob_accept.2, if_pos rfl]
      exact (congrArg (fun c => endOfBuffer t { b' with cBufP := c }) hnul.lastCpos).trans hend

/-- What a call of `yylex` comes to, up to an action: nothing if there is nothing left, else the rule. -/
def Ends (rs : Rules UInt8) (q : Nat) (w : List UInt8) (r : Option (Buffer × Option Nat)) : Prop :=
  ∃ b, r = some (b, none) ∧ w = [] ∨ ∃ n, r = some (b, some n) ∧ Taken rs q w b n

theorem scan_final (hv : t.Valid left S eob) (hq : t.Starts S q) {b : Buffer} {p fuel : Nat}
    (h : Final t q w b p) : Ends (left q) q w (b.scan t (fuel + 2) (.yyFindAction (stateAt t q w p))) := by
  obtain ⟨b', n, hstep, htaken⟩ := yyFindAction_final hv hq h
  refine ⟨b', Or.inr ⟨n, ?_, htaken⟩⟩
  show Option.bind (step t b _) _ = _
  rw [hstep]
  rfl

theorem scan_goes (hv : t.Valid left S eob) (hq : t.Starts S q) {b : Buffer} {p m : Nat}
    (hlive : Live t q w b p) (hfuel : 4 ≤ m)
    (hrest : ∀ {b' : Buffer} {p' : Nat}, Live t q w b' p' → ahead w b' p' < ahead w b p →
      Ends (left q) q w (b'.scan t (m - 2) (.yyMatch (stateAt t q w p')))) :
    Ends (left q) q w (b.scan t m (.yyMatch (stateAt t q w p))) := by
  obtain ⟨m, rfl⟩ := Nat.exists_eq_add_of_le' hfuel
  obtain ⟨b', state, b'', label, hmatch, hgoes⟩ := step_step hv hq hlive
  have hscan : b.scan t (m + 4) (.yyMatch (stateAt t q w p)) = b'.scan t (m + 3) (.yyFindAction state) := by
    show Option.bind (step t b _) _ = _
    rw [hmatch]
    rfl
  rw [hscan]
  rcases hgoes with hgoes | ⟨hstep, hgoes⟩
  · generalize hlabel : Label.yyFindAction state = label' at hgoes
    cases hgoes with
    | live => cases hlabel
    | final hfinal => exact scan_final hv hq hfinal
    | ended => cases hlabel
  · have hscan : b'.scan t (m + 3) (.yyFindAction state) = b''.scan t (m + 2) label := by
      show Option.bind (step t b' _) _ = _
      rw [hstep]
      rfl
    rw [hscan]
    cases hgoes with
    | live hlive' hahead => exact hrest hlive' hahead
    | final hfinal => exact scan_final hv hq hfinal
    | ended hw => exact ⟨b'', Or.inl ⟨rfl, hw⟩⟩

theorem scan_live (hv : t.Valid left S eob) (hq : t.Starts S q) : ∀ (m : Nat) {b : Buffer} {p fuel : Nat},
    Live t q w b p → ahead w b p ≤ m → 2 * m + 4 ≤ fuel →
    Ends (left q) q w (b.scan t fuel (.yyMatch (stateAt t q w p))) := by
  intro m
  induction m with
  | zero =>
    intro b p fuel hlive hm hfuel
    exact scan_goes hv hq hlive hfuel fun hlive' hahead => absurd hahead (by omega)
  | succ m ih =>
    intro b p fuel hlive hm hfuel
    exact scan_goes hv hq hlive (by omega) fun hlive' hahead => ih hlive' (by omega) (by omega)

/-- **What `yylex` does between two actions.** -/
theorem scan_eq (hv : t.Valid left S eob) (hq : t.Starts S q) {b : Buffer} (hreads : Reads b w)
    (hcp : b.cBufP = 0) (hstart : b.yyStart = q) {fuel : Nat} (hfuel : 4 * w.length + 4 ≤ fuel) :
    Ends (left q) q w (b.scan t fuel (.yyMatch q)) := by
  have hlive : Live t q w b 0 := ⟨hreads, hstart, hcp, Nat.zero_le _, by rw [stateAt_zero]; exact hq.ne_jam,
    fun h => absurd h (by decide)⟩
  have hfile := hreads.length_file_le
  have hahead : ahead w b 0 ≤ 2 * w.length := by rw [ahead]; omega
  have hends := scan_live hv hq _ hlive hahead (by omega : 2 * (2 * w.length) + 4 ≤ fuel)
  rwa [stateAt_zero] at hends

theorem lex_stop {β : Type} {act : Nat → Nat → List UInt8 → List β × Option Nat} {b b' : Buffer} {fuel n : Nat}
    {out : List β} (hscan : b.scan t fuel (.yyMatch b.yyStart) = some (b', some n))
    (hact : act b'.yyStart n b'.yytext = (out, none)) : b.lex t act (fuel + 1) = some out := by
  rw [lex, hscan, Option.bind_eq_bind, Option.bind_some]
  dsimp only
  rw [hact]
  rfl

theorem lex_more {β : Type} {act : Nat → Nat → List UInt8 → List β × Option Nat} {b b' : Buffer}
    {fuel n start : Nat} {out rest : List β} (hscan : b.scan t fuel (.yyMatch b.yyStart) = some (b', some n))
    (hact : act b'.yyStart n b'.yytext = (out, some start))
    (hrest : lex t act fuel { b'.restart with yyStart := start } = some rest) :
    b.lex t act (fuel + 1) = some (out ++ rest) := by
  rw [lex, hscan, Option.bind_eq_bind, Option.bind_some]
  dsimp only
  rw [hact]
  dsimp only
  rw [hrest]
  rfl

/-- **The scanner reads a text as the rules have it**, whatever the pieces are that it comes in. -/
theorem lex_lexed {β : Type} {act : Nat → Nat → List UInt8 → List β × Option Nat} {starts : List Nat}
    {rules : Nat → Rules UInt8} (hv : t.Valid left S eob) (hstarts : ∀ q ∈ starts, t.Starts S q)
    (hrules : ∀ q ∈ starts, left q = rules q)
    (hact : ∀ q ∈ starts, ∀ n text q', (act q n text).2 = some q' → q' ∈ starts) :
    ∀ (m : Nat) {w : List UInt8} {b : Buffer} {fuel : Nat}, w.length ≤ m → Reads b w → b.cBufP = 0 →
    b.yyStart ∈ starts → 4 * m + 5 ≤ fuel →
    ∃ out, b.lex t act fuel = some out ∧ Lexed rules act b.yyStart w out := by
  intro m
  induction m with
  | zero =>
    intro w b fuel hm hreads hcp hstart hfuel
    obtain ⟨fuel, rfl⟩ : ∃ k, fuel = k + 1 := ⟨fuel - 1, by omega⟩
    obtain ⟨b', ⟨hscan, hw⟩ | ⟨n, hscan, htaken⟩⟩ :=
      scan_eq hv (hstarts _ hstart) hreads hcp rfl (by omega : 4 * w.length + 4 ≤ fuel)
    · subst hw
      refine ⟨[], ?_, .nil⟩
      rw [lex, hscan]
      rfl
    · exact absurd (List.length_eq_zero_iff.mp (Nat.le_zero.mp hm)) htaken.longest.ne_nil
  | succ m ih =>
    intro w b fuel hm hreads hcp hstart hfuel
    obtain ⟨fuel, rfl⟩ : ∃ k, fuel = k + 1 := ⟨fuel - 1, by omega⟩
    obtain ⟨b', ⟨hscan, hw⟩ | ⟨n, hscan, htaken⟩⟩ :=
      scan_eq hv (hstarts _ hstart) hreads hcp rfl (by omega : 4 * w.length + 4 ≤ fuel)
    · subst hw
      refine ⟨[], ?_, .nil⟩
      rw [lex, hscan]
      rfl
    · have hlongest : IsLongest (rules b.yyStart) w b'.cBufP n := hrules _ hstart ▸ htaken.longest
      obtain ⟨out, start, hout⟩ : ∃ out start, act b.yyStart n (w.take b'.cBufP) = (out, start) := ⟨_, _, rfl⟩
      have hout' : act b'.yyStart n b'.yytext = (out, start) := by rw [htaken.yyStart, htaken.yytext, hout]
      cases start with
      | none => exact ⟨out, lex_stop hscan hout', .stop hlongest hout⟩
      | some q' =>
        have hlen : (w.drop b'.cBufP).length ≤ m := by
          have hpos := htaken.longest.pos
          rw [List.length_drop]
          omega
        obtain ⟨rest, hrest, hlexed⟩ := ih (b := { b'.restart with yyStart := q' }) hlen
          ⟨htaken.restart.text, htaken.restart.file⟩ rfl
          (hact _ hstart n (w.take b'.cBufP) q' (congrArg Prod.snd hout)) (by omega : 4 * m + 5 ≤ fuel)
        exact ⟨out ++ rest, lex_more hscan hout' hrest, .more hlongest hout hlexed⟩

theorem lex_ofFile {β : Type} {act : Nat → Nat → List UInt8 → List β × Option Nat} {starts : List Nat}
    {rules : Nat → Rules UInt8} (hv : t.Valid left S eob) (hstarts : ∀ q ∈ starts, t.Starts S q)
    (hrules : ∀ q ∈ starts, left q = rules q)
    (hact : ∀ q ∈ starts, ∀ n text q', (act q n text).2 = some q' → q' ∈ starts) (file : List Piece)
    (hq : q ∈ starts) {fuel : Nat} (hfuel : 4 * (file.flatMap Piece.bytes).length + 5 ≤ fuel) :
    ∃ out, (ofFile file q).lex t act fuel = some out ∧
      ∀ out', Lexed rules act q (file.flatMap Piece.bytes) out' ↔ out' = out := by
  obtain ⟨out, hlex, hlexed⟩ := lex_lexed (b := ofFile file q) hv hstarts hrules hact _ (Nat.le_refl _)
    ⟨rfl, fun h => absurd h Bool.false_ne_true⟩ rfl hq hfuel
  exact ⟨out, hlex, fun out' => ⟨fun h => h.unique hlexed, fun h => h ▸ hlexed⟩⟩

end Buffer

end CxxLab.YaccLab.Flex
