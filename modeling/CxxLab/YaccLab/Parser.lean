import Mathlib.Tactic.SplitIfs
import CxxLab.DbLab.Tokener
import CxxLab.Lib.Decimal

/-!
# `yacc_lab/y.tab.c` — the parser of `example5.y`

A parser for the commands of a heater: turn it on or off, set a temperature, select another heater. The
grammar has been made into tables of a few dozen numbers, and `yyparse` is a loop around them that knows
nothing of the grammar: it keeps a stack of states, and the tables say when to push a token and when to
replace what is on top by a nonterminal, which is when the action of a rule is run.
-/

set_option autoImplicit false

namespace CxxLab.YaccLab

open CxxLab.Lib CxxLab.DbLab

/-! ## The tables -/

/-- `YYFINAL`, the state in which the input is accepted. -/
def yyfinal : Nat := 2

/-- `YYLAST`, the last index of `yytable`. -/
def yylast : Nat := 7

/-- `YYNTOKENS`, the first symbol that is no token. -/
def yyntokens : Nat := 10

/-- `YYMAXUTOK`. -/
def yymaxutok : Nat := 264

/-- `YYUNDEFTOK`. -/
def yyundeftok : Nat := 2

/-- `YYTERROR`. -/
def yyterror : Nat := 1

/-- `YYINITDEPTH` and `YYMAXDEPTH`. -/
def yyinitdepth : Nat := 200

def yymaxdepth : Nat := 10000

/-- `YYPACT_NINF`. -/
def yypactNinf : Int := -9

def yypact : List Int := [-9, 0, -9, -8, -5, 1, -9, -9, -9, -9, -9, -9, -2, -9]

def yydefact : List Nat := [2, 0, 1, 0, 0, 0, 3, 4, 5, 6, 9, 7, 0, 8]

def yypgoto : List Int := [-9, -9, -9, -9, -9, -9]

def yydefgoto : List Int := [-1, 1, 6, 7, 8, 9]

def yytable : List Nat := [2, 10, 11, 3, 4, 5, 13, 12]

def yycheck : List Nat := [0, 9, 7, 3, 4, 5, 8, 6]

/-- The left hand side of each rule. -/
def yyr1 : List Nat := [0, 10, 11, 11, 12, 12, 12, 13, 14, 15]

/-- The length of the right hand side of each rule. -/
def yyr2 : List Nat := [0, 2, 0, 2, 1, 1, 1, 2, 3, 2]

/-- `yytranslate`. -/
def yytranslate (n : Nat) : Nat :=
  if n = 0 then 0 else if n < 256 then 2 else if n = 256 then 1 else if n = 257 then 2 else n - 255

/-- `YYTRANSLATE`. A negative number is a large one there. -/
def translate (yychar : Int) : Nat :=
  if 0 ≤ yychar ∧ yychar ≤ yymaxutok then yytranslate yychar.toNat else yyundeftok

/-- The entry for `x` in the part of `yytable` that begins at `base`: there is one where `yycheck` says
so. -/
def entry (base : Int) (x : Nat) : Option (Option Nat) :=
  let index := base + x
  if 0 ≤ index ∧ index ≤ yylast then do
    let check ← yycheck[index.toNat]?
    let n ← yytable[index.toNat]?
    return if check = x then some n else none
  else some none

/-! ## The state of the parser -/

/-- The members of the union, each what the bytes are when they are read as that. -/
structure YYSTYPE where
  number : Int
  string : Str

/-- What a call of `yylex` returns, and what `yylval` is then. -/
structure Token where
  yychar : Int
  yylval : YYSTYPE

/-- `YYEMPTY`. -/
def yyempty : Int := -2

/-- `YYEOF`. -/
def yyeof : Int := 0

/-- The variables of `yyparse` and the globals. The two stacks have their top in front; `yyvs` does not
have the value at the bottom, which is never set. `input` is what `yylex` is still to return, and after
that it returns 0. -/
structure Parser where
  yyss : List Nat
  yyvs : List YYSTYPE
  yystacksize : Nat
  yyerrstatus : Nat
  yynerrs : Nat
  yychar : Int
  yylval : YYSTYPE
  input : List Token
  heater : Str
  stdout : Str
  stderr : Str

namespace Parser

/-- Where `yyparse` goes on: at `yynewstate`, or with this result at `yyreturn`. -/
inductive Next where
  | newstate (yystate : Nat) (p : Parser)
  | ret (yyresult : Nat) (p : Parser)

/-- `printf` of an `int`. -/
def textOfInt (n : Int) : Str :=
  if n < 0 then 45 :: Decimal.text n.natAbs else Decimal.text n.natAbs

def yyerror (p : Parser) (str : Str) : Parser :=
  { p with stderr := p.stderr ++ lit "error: " ++ str ++ lit "\n" }

/-- `yychar = yylex ()`. -/
def yylex (p : Parser) : Parser :=
  match p.input with
  | [] => { p with yychar := 0 }
  | t :: rest => { p with yychar := t.yychar, yylval := t.yylval, input := rest }

/-- `YYPOPSTACK`. -/
def popStack (n : Nat) (p : Parser) : Parser :=
  { p with yyss := p.yyss.drop n, yyvs := p.yyvs.drop n }

/-! ## Errors -/

/-- Whether the state can shift the error token, and where to. -/
def shiftError (yystate : Nat) : Option (Option Nat) := do
  let yyn ← yypact[yystate]?
  if yyn = yypactNinf then return none
  match ← entry yyn yyterror with
  | some yyn => return if 0 < yyn then some yyn else none
  | none => return none

/-- The loop of `yyerrlab1`, over the stack. -/
def popToError (p : Parser) : List Nat → Option Next
  | [] => none
  | yystate :: below => do
    match ← shiftError yystate with
    | some yyn => return .newstate yyn { p with yyvs := p.yylval :: p.yyvs }
    | none =>
      if below = [] then return .ret 1 p
      popToError (p.popStack 1) below

/-- `yyerrlab1`. -/
def yyerrlab1 (p : Parser) : Option Next := popToError { p with yyerrstatus := 3 } p.yyss

/-- `yyerrlab`. -/
def yyerrlab (p : Parser) : Option Next :=
  let p := if p.yyerrstatus = 0 then { p with yynerrs := p.yynerrs + 1 }.yyerror (lit "syntax error") else p
  if p.yyerrstatus = 3 then
    if p.yychar ≤ yyeof then
      if p.yychar = yyeof then some (.ret 1 p) else p.yyerrlab1
    else { p with yychar := yyempty }.yyerrlab1
  else p.yyerrlab1

/-! ## Reductions -/

/-- What `heat_switch` prints. In the second text the heater is called `Heat`. -/
def switched (heater : Str) (state : Int) : Str :=
  if state ≠ 0 then lit "\tHeater '" ++ heater ++ lit "' turned on\n"
  else lit "\tHeat '" ++ heater ++ lit "' turned off\n"

/-- What `target_set` prints. There is no newline. -/
def targetSet (heater : Str) (number : Int) : Str :=
  lit "\tHeater '" ++ heater ++ lit "' temperature set to " ++ textOfInt number

/-- What `heater_select` prints. -/
def selected (word : Str) : Str := lit "\tSelected heater '" ++ word ++ lit "'\n"

/-- The actions of the rules. -/
def act (p : Parser) (yyn : Nat) : Option Parser :=
  match yyn with
  | 7 => do
    let v ← p.yyvs.head?
    return { p with stdout := p.stdout ++ switched p.heater v.number }
  | 8 => do
    let v ← p.yyvs.head?
    return { p with stdout := p.stdout ++ targetSet p.heater v.number }
  | 9 => do
    let v ← p.yyvs.head?
    return { p with stdout := p.stdout ++ selected v.string, heater := v.string }
  | _ => some p

/-- The state after a nonterminal has been put on the stack over `below`. -/
def gotoState (lhs below : Nat) : Option Nat := do
  match ← entry (← yypgoto[lhs - yyntokens]?) below with
  | some yystate => return yystate
  | none => (← yydefgoto[lhs - yyntokens]?).toNat?

/-- `yyreduce`. `yyval` is the value of the first symbol of the right hand side; where that is empty it is
whatever is above the stack (`above`). -/
def yyreduce (above : YYSTYPE) (p : Parser) (yyn : Nat) : Option Next := do
  let yylen ← yyr2[yyn]?
  let yyval ← if yylen = 0 then some above else p.yyvs[yylen - 1]?
  let p ← p.act yyn
  let p := p.popStack yylen
  let p := { p with yyvs := yyval :: p.yyvs }
  let lhs ← yyr1[yyn]?
  let below ← p.yyss.head?
  return .newstate (← gotoState lhs below) p

/-- `yydefault`. -/
def yydefault (above : YYSTYPE) (p : Parser) (yystate : Nat) : Option Next := do
  let yyn ← yydefact[yystate]?
  if yyn = 0 then p.yyerrlab else p.yyreduce above yyn

/-! ## Shifts -/

/-- The lookahead token is read if there is none. Everything to 0 is the end of the input. -/
def look (p : Parser) : Parser :=
  let p := if p.yychar = yyempty then p.yylex else p
  if p.yychar ≤ yyeof then { p with yychar := yyeof } else p

/-- `yytoken`. -/
def yytoken (p : Parser) : Nat := if p.yychar ≤ yyeof then 0 else translate p.yychar

/-- The lookahead token is used up, and its value pushed. -/
def shift (p : Parser) : Parser :=
  { p with yyerrstatus := p.yyerrstatus - 1, yychar := yyempty, yyvs := p.yylval :: p.yyvs }

/-- `yybackup`. -/
def yybackup (above : YYSTYPE) (p : Parser) (yystate : Nat) : Option Next := do
  let yyn ← yypact[yystate]?
  if yyn = yypactNinf then p.yydefault above yystate
  else
    let p := p.look
    match ← entry yyn p.yytoken with
    | some 0 => p.yyreduce above 0
    | some yystate => return .newstate yystate p.shift
    | none => p.yydefault above yystate

/-- A full stack is made larger, if there is memory for it (`mallocs` of so many elements). -/
def enlarge (mallocs : Nat → Bool) (p : Parser) : Except Next Parser :=
  if p.yystacksize ≤ p.yyss.length then
    if yymaxdepth ≤ p.yystacksize then .error (.ret 2 (p.yyerror (lit "memory exhausted")))
    else
      let p := { p with yystacksize := min (2 * p.yystacksize) yymaxdepth }
      if mallocs p.yystacksize then
        if p.yystacksize ≤ p.yyss.length then .error (.ret 1 p) else .ok p
      else .error (.ret 2 (p.yyerror (lit "memory exhausted")))
  else .ok p

/-- `yysetstate`. -/
def yysetstate (mallocs : Nat → Bool) (above : YYSTYPE) (p : Parser) (yystate : Nat) : Option Next :=
  match enlarge mallocs { p with yyss := yystate :: p.yyss } with
  | .error next => some next
  | .ok p => if yystate = yyfinal then some (.ret 0 p) else p.yybackup above yystate

/-- The loop. -/
def yyloop (mallocs : Nat → Bool) (above : YYSTYPE) : Nat → Nat → Parser → Option (Nat × Parser)
  | 0, _, _ => none
  | fuel + 1, yystate, p => do
    match ← p.yysetstate mallocs above yystate with
    | .newstate yystate p => yyloop mallocs above fuel yystate p
    | .ret yyresult p => return (yyresult, p)

/-- Before the first state. -/
def start (yylval : YYSTYPE) (input : List Token) (heater : Str) : Parser :=
  ⟨[], [], yyinitdepth, 0, 0, yyempty, yylval, input, heater, [], []⟩

/-- `yyparse`, with `fuel` for its loop. -/
def yyparse (mallocs : Nat → Bool) (above : YYSTYPE) (fuel : Nat) (yylval : YYSTYPE)
    (input : List Token) (heater : Str) : Option (Nat × Parser) :=
  yyloop mallocs above fuel 0 (start yylval input heater)

/-! ## Steps of the parser -/

variable {mallocs : Nat → Bool} {above yylval : YYSTYPE} {yyss : List Nat} {yyvs : List YYSTYPE}
  {input : List Token} {heater stdout : Str} {fuel s r : Nat} {n : Int} {t : Token}

/-- The parser between two symbols, with no lookahead and no error so far. -/
def between (yyss : List Nat) (yyvs : List YYSTYPE) (yylval : YYSTYPE) (input : List Token)
    (heater stdout : Str) : Parser :=
  ⟨yyss, yyvs, yyinitdepth, 0, 0, yyempty, yylval, input, heater, stdout, []⟩

/-- The symbol of the next token. -/
def symbol : List Token → Nat
  | [] => 0
  | t :: _ => if t.yychar ≤ yyeof then 0 else translate t.yychar

theorem symbol_le (ts : List Token) : symbol ts ≤ 9 := by
  unfold symbol translate yytranslate yyeof yymaxutok yyundeftok
  split
  · decide
  · split_ifs <;> omega

theorem symbol_eq_iff {k : Nat} (hk : 3 ≤ k) (hk' : k ≤ 9) (ts : List Token) :
    symbol (t :: ts) = k ↔ t.yychar = k + 255 := by
  unfold symbol translate yytranslate yyeof yymaxutok yyundeftok
  dsimp only
  split_ifs <;> omega

/-- A state in which it depends on the next token what happens. -/
structure Waits (s : Nat) (n : Int) : Prop where
  row : yypact[s]? = some n
  ne : n ≠ yypactNinf
  fails : yydefact[s]? = some 0
  ne_final : s ≠ yyfinal

theorem yysetstate_between (hroom : yyss.length + 1 < yyinitdepth) (hs : s ≠ yyfinal) :
    (between yyss yyvs yylval input heater stdout).yysetstate mallocs above s =
      (between (s :: yyss) yyvs yylval input heater stdout).yybackup above s := by
  have hroom : enlarge mallocs (between (s :: yyss) yyvs yylval input heater stdout) =
      .ok (between (s :: yyss) yyvs yylval input heater stdout) := if_neg (Nat.not_le.mpr hroom)
  show (match enlarge mallocs (between (s :: yyss) yyvs yylval input heater stdout) with
    | .error next => some next
    | .ok p => if s = yyfinal then some (.ret 0 p) else p.yybackup above s) = _
  rw [hroom]
  exact if_neg hs

/-- What the parser is like when the next token has been read. -/
theorem exists_look (yyss : List Nat) (yyvs : List YYSTYPE) (yylval : YYSTYPE) (input : List Token)
    (heater stdout : Str) : ∃ c l rest, (between yyss yyvs yylval input heater stdout).look =
    ⟨yyss, yyvs, yyinitdepth, 0, 0, c, l, rest, heater, stdout, []⟩ := by
  cases input with
  | nil => exact ⟨yyeof, yylval, [], rfl⟩
  | cons t input =>
    show ∃ c l rest, (if t.yychar ≤ yyeof then _ else _) = _
    split
    · exact ⟨yyeof, t.yylval, input, rfl⟩
    · exact ⟨t.yychar, t.yylval, input, rfl⟩

theorem yytoken_look : (between yyss yyvs yylval input heater stdout).look.yytoken = symbol input := by
  cases input with
  | nil => rfl
  | cons t rest =>
    show yytoken (if t.yychar ≤ yyeof then _ else _) = if t.yychar ≤ yyeof then 0 else _
    split
    · rfl
    · next h => exact if_neg h

theorem shift_look : (between yyss yyvs yylval (t :: input) heater stdout).look.shift =
    between yyss (t.yylval :: yyvs) t.yylval input heater stdout := by
  show shift (if t.yychar ≤ yyeof then _ else _) = _
  split <;> rfl

theorem yybackup_shift (hs : Waits s n) {p : Parser} (hentry : entry n p.look.yytoken = some (some (r + 1))) :
    p.yybackup above s = some (.newstate (r + 1) p.look.shift) := by
  rw [yybackup, hs.row, Option.bind_eq_bind, Option.bind_some, if_neg hs.ne]
  dsimp only
  rw [hentry]
  rfl

theorem yybackup_reject (hs : Waits s n) {p : Parser} (hentry : entry n p.look.yytoken = some none) :
    p.yybackup above s = p.look.yyerrlab := by
  rw [yybackup, hs.row, Option.bind_eq_bind, Option.bind_some, if_neg hs.ne]
  dsimp only
  rw [hentry]
  show yydefault _ _ _ = _
  rw [yydefault, hs.fails]
  rfl

/-- A token that there is an entry for is shifted. -/
theorem yyloop_shift (hs : Waits s n) (hroom : yyss.length + 1 < yyinitdepth)
    (hentry : entry n (symbol (t :: input)) = some (some (r + 1))) :
    yyloop mallocs above (fuel + 1) s (between yyss yyvs yylval (t :: input) heater stdout) =
      yyloop mallocs above fuel (r + 1)
        (between (s :: yyss) (t.yylval :: yyvs) t.yylval input heater stdout) := by
  have hbackup : (between (s :: yyss) yyvs yylval (t :: input) heater stdout).yybackup above s =
      some (.newstate (r + 1) (between (s :: yyss) yyvs yylval (t :: input) heater stdout).look.shift) :=
    yybackup_shift hs (by rw [yytoken_look, hentry])
  rw [shift_look] at hbackup
  rw [yyloop, yysetstate_between hroom hs.ne_final]
  exact congrArg (Option.bind · _) hbackup

/-- No state can shift the error token: there is no rule with `error` in it. -/
theorem shiftError_eq : ∀ s < yypact.length, shiftError s = some none := by decide

/-- So after an error everything is popped. -/
theorem popToError_eq : ∀ (ss : List Nat) (p : Parser), ss ≠ [] → (∀ s ∈ ss, s < yypact.length) →
    popToError p ss = some (.ret 1 (p.popStack (ss.length - 1))) := by
  intro ss
  induction ss with
  | nil => intro p hne _; exact absurd rfl hne
  | cons s ss ih =>
    intro p _ hstates
    rw [popToError, shiftError_eq s (hstates s List.mem_cons_self)]
    cases ss with
    | nil => simp [popStack]
    | cons s' ss =>
      have hrest := ih (p.popStack 1) (List.cons_ne_nil s' ss) fun t ht => hstates t (List.mem_cons_of_mem _ ht)
      simp only [Option.bind_eq_bind, Option.bind_some, reduceCtorEq, if_false]
      rw [hrest]
      simp [popStack, Nat.add_comm]

/-- After the message, and without the stack. -/
def rejected (p : Parser) : Parser :=
  popStack (p.yyss.length - 1)
    { { p with yynerrs := p.yynerrs + 1 }.yyerror (lit "syntax error") with yyerrstatus := 3 }

theorem yyerrlab_eq {p : Parser} (hstatus : p.yyerrstatus = 0) (hne : p.yyss ≠ [])
    (hstates : ∀ s ∈ p.yyss, s < yypact.length) : p.yyerrlab = some (.ret 1 p.rejected) := by
  rw [yyerrlab, if_pos hstatus, if_neg (by rw [yyerror, hstatus]; decide)]
  exact popToError_eq _ _ hne hstates

/-- A token that there is no entry for is an error. -/
theorem yyloop_reject (hs : Waits s n) (hroom : yyss.length + 1 < yyinitdepth)
    (hstates : ∀ s' ∈ s :: yyss, s' < yypact.length) (hentry : entry n (symbol input) = some none) :
    yyloop mallocs above (fuel + 1) s (between yyss yyvs yylval input heater stdout) =
      some (1, (between (s :: yyss) yyvs yylval input heater stdout).look.rejected) := by
  have hlook : (between (s :: yyss) yyvs yylval input heater stdout).look.yyerrstatus = 0 ∧
      (between (s :: yyss) yyvs yylval input heater stdout).look.yyss = s :: yyss := by
    obtain ⟨c, l, rest, hlook⟩ := exists_look (s :: yyss) yyvs yylval input heater stdout
    rw [hlook]
    exact ⟨rfl, rfl⟩
  have hbackup : (between (s :: yyss) yyvs yylval input heater stdout).yybackup above s =
      (between (s :: yyss) yyvs yylval input heater stdout).look.yyerrlab :=
    yybackup_reject hs (by rw [yytoken_look, hentry])
  rw [yyerrlab_eq hlook.1 (by rw [hlook.2]; exact List.cons_ne_nil _ _) (by rwa [hlook.2])] at hbackup
  rw [yyloop, yysetstate_between hroom hs.ne_final]
  exact congrArg (Option.bind · _) hbackup

end Parser

end CxxLab.YaccLab
