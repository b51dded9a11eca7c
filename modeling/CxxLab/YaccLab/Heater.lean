import CxxLab.Lib.Grammar
import CxxLab.YaccLab.Parser

/-!
# `yacc_lab/example5.y` — what the parser is for

The grammar as it stands in the source, and what commands do. `yyparse` comes back with 0 if the tokens
are a sentence of the grammar and with 1 if not, and either way it has run the commands from the first
token on as far as they are complete (`yyparse_eq`). The stack holds five states at most, so it is never
enlarged.
-/

set_option autoImplicit false

namespace CxxLab.YaccLab

open CxxLab.Lib CxxLab.Lib.Grammar CxxLab.DbLab CxxLab.YaccLab.Parser

open scoped Computability

/-! ## The grammar -/

/-- `yytokentype`. -/
def tokheater : Int := 258

def tokheat : Int := 259

def toktarget : Int := 260

def toktemperature : Int := 261

def state : Int := 262

def number : Int := 263

def word : Int := 264

inductive Nonterminal where
  | commands
  | command
  | heatSwitch
  | targetSet
  | heaterSelect
  deriving DecidableEq

/-- The rules, from number 2 on. -/
def rules : List (ContextFreeRule Int Nonterminal) := [
  ⟨.commands, []⟩,
  ⟨.commands, [.nonterminal .commands, .nonterminal .command]⟩,
  ⟨.command, [.nonterminal .heatSwitch]⟩,
  ⟨.command, [.nonterminal .targetSet]⟩,
  ⟨.command, [.nonterminal .heaterSelect]⟩,
  ⟨.heatSwitch, [.terminal tokheat, .terminal state]⟩,
  ⟨.targetSet, [.terminal toktarget, .terminal toktemperature, .terminal number]⟩,
  ⟨.heaterSelect, [.terminal tokheater, .terminal word]⟩]

def example5 : ContextFreeGrammar Int := ⟨Nonterminal, .commands, rules.toFinset⟩

theorem mem_example5 {r : ContextFreeRule Int Nonterminal} : r ∈ example5.rules ↔ r ∈ rules := by
  show r ∈ rules.toFinset ↔ r ∈ rules
  exact List.mem_toFinset

/-- The words that are a command. -/
def commandWords : Language Int :=
  {[tokheat, state]} + {[toktarget, toktemperature, number]} + {[tokheater, word]}

theorem mem_commandWords {w : List Int} : w ∈ commandWords ↔ w = [tokheat, state] ∨
    w = [toktarget, toktemperature, number] ∨ w = [tokheater, word] := by
  simp only [commandWords, Language.mem_add, or_assoc]
  rfl

/-- The words of each nonterminal. -/
def words : Nonterminal → Language Int
  | .commands => commandWords∗
  | .command => commandWords
  | .heatSwitch => {[tokheat, state]}
  | .targetSet => {[toktarget, toktemperature, number]}
  | .heaterSelect => {[tokheater, word]}

theorem sound_words {r : ContextFreeRule Int Nonterminal} (hr : r ∈ rules) :
    Sound words r := by
  have hstar : commandWords∗ * commandWords ≤ commandWords∗ := by
    calc commandWords∗ * commandWords ≤ 1 + commandWords∗ * commandWords := le_sup_right
      _ = commandWords∗ := Language.one_add_kstar_mul_self_eq_kstar commandWords
  simp only [rules, List.mem_cons, List.not_mem_nil, or_false] at hr
  rcases hr with rfl | rfl | rfl | rfl | rfl | rfl | rfl | rfl <;>
    simp only [Sound, meaning, words, List.map_cons, List.map_nil, List.prod_cons, List.prod_nil, mul_one]
  · exact fun w hw => hw ▸ Language.nil_mem_kstar _
  · exact hstar
  · exact fun w hw => mem_commandWords.mpr (Or.inl hw)
  · exact fun w hw => mem_commandWords.mpr (Or.inr (Or.inl hw))
  · exact fun w hw => mem_commandWords.mpr (Or.inr (Or.inr hw))
  · rintro w ⟨_, rfl, _, rfl, rfl⟩
    rfl
  · rintro w ⟨_, rfl, _, ⟨_, rfl, _, rfl, rfl⟩, rfl⟩
    rfl
  · rintro w ⟨_, rfl, _, rfl, rfl⟩
    rfl

theorem derives_of_mem {n : Nonterminal} {output : List (Symbol Int Nonterminal)}
    (h : ⟨n, output⟩ ∈ rules) : example5.Derives [.nonterminal n] output :=
  derives_rule (mem_example5.mpr h)

theorem derives_command {w : List Int} (h : w ∈ commandWords) :
    example5.Derives [.nonterminal Nonterminal.command] (w.map .terminal) := by
  rcases mem_commandWords.mp h with rfl | rfl | rfl
  · exact (derives_of_mem (by decide : ⟨.command, [.nonterminal .heatSwitch]⟩ ∈ rules)).trans
      (derives_of_mem (by decide))
  · exact (derives_of_mem (by decide : ⟨.command, [.nonterminal .targetSet]⟩ ∈ rules)).trans
      (derives_of_mem (by decide))
  · exact (derives_of_mem (by decide : ⟨.command, [.nonterminal .heaterSelect]⟩ ∈ rules)).trans
      (derives_of_mem (by decide))

/-- The grammar is left-recursive, so the last command comes first. -/
theorem derives_commands (ws : List (List Int)) (h : ∀ w ∈ ws, w ∈ commandWords) :
    example5.Derives [.nonterminal Nonterminal.commands] (ws.flatten.map .terminal) := by
  induction ws using List.reverseRecOn with
  | nil => exact derives_of_mem (by decide)
  | append_singleton ws w ih =>
    have hws := ih fun v hv => h v (List.mem_append_left _ hv)
    have hw := derives_command (h w (List.mem_append_right _ (List.mem_singleton_self w)))
    have hrule := derives_of_mem
      (by decide : ⟨.commands, [.nonterminal .commands, .nonterminal .command]⟩ ∈ rules)
    rw [List.flatten_append, List.flatten_singleton, List.map_append]
    exact (hrule.trans (hws.append_right [.nonterminal Nonterminal.command])).trans (hw.append_left _)

/-- **What the grammar says**: a sentence is commands, one after the other. -/
theorem language_example5 : example5.language = commandWords∗ := by
  refine le_antisymm (language_le fun r hr => sound_words (mem_example5.mp hr)) fun w hw => ?_
  obtain ⟨ws, rfl, hws⟩ := Language.mem_kstar.mp hw
  exact derives_commands ws hws

/-! ## Commands -/

inductive Command where
  | heatSwitch (state : Int)
  | targetSet (number : Int)
  | heaterSelect (word : Str)

/-- What a command prints when `heater` is selected. -/
def Command.text (heater : Str) : Command → Str
  | heatSwitch state => Parser.switched heater state
  | targetSet number => Parser.targetSet heater number
  | heaterSelect word => Parser.selected word

/-- The heater that is selected after it. -/
def Command.heater (heater : Str) : Command → Str
  | heaterSelect word => word
  | _ => heater

/-- What commands print, and the heater that is selected at the end. -/
def runCommands (heater : Str) : List Command → Str × Str
  | [] => ([], heater)
  | c :: cs => (c.text heater ++ (runCommands (c.heater heater) cs).1, (runCommands (c.heater heater) cs).2)

/-- The command at the front of the tokens, and the tokens after it. -/
def readCommand : List Token → Option (Command × List Token)
  | a :: b :: rest =>
    if a.yychar = tokheat ∧ b.yychar = state then some (.heatSwitch b.yylval.number, rest)
    else if a.yychar = tokheater ∧ b.yychar = word then some (.heaterSelect b.yylval.string, rest)
    else match rest with
      | c :: rest =>
        if a.yychar = toktarget ∧ b.yychar = toktemperature ∧ c.yychar = number then
          some (.targetSet c.yylval.number, rest)
        else none
      | [] => none
  | _ => none

/-- The commands from the first token on as far as they are complete, and the tokens that are left. -/
def readCommands : Nat → List Token → List Command × List Token
  | 0, ts => ([], ts)
  | n + 1, ts =>
    match readCommand ts with
    | some (c, rest) => (c :: (readCommands n rest).1, (readCommands n rest).2)
    | none => ([], ts)

/-! ## The parser over a command -/

namespace Parser

variable {mallocs : Nat → Bool} {above yylval : YYSTYPE} {input : List Token} {heater stdout : Str}
  {fuel : Nat}

theorem waits_commands : Waits 1 0 := ⟨rfl, by decide, rfl, by decide⟩

theorem waits_tokheater : Waits 3 (-8) := ⟨rfl, by decide, rfl, by decide⟩

theorem waits_tokheat : Waits 4 (-5) := ⟨rfl, by decide, rfl, by decide⟩

theorem waits_toktarget : Waits 5 1 := ⟨rfl, by decide, rfl, by decide⟩

theorem waits_toktemperature : Waits 12 (-2) := ⟨rfl, by decide, rfl, by decide⟩

theorem entry_commands : ∀ k ≤ 9, entry 0 k = some
    (if k = 0 then some 2 else if k = 3 then some 3 else if k = 4 then some 4 else if k = 5 then some 5
      else none) := by decide

theorem entry_tokheater : ∀ k ≤ 9, entry (-8) k = some (if k = 9 then some 10 else none) := by decide

theorem entry_tokheat : ∀ k ≤ 9, entry (-5) k = some (if k = 7 then some 11 else none) := by decide

theorem entry_toktarget : ∀ k ≤ 9, entry 1 k = some (if k = 6 then some 12 else none) := by decide

theorem entry_toktemperature : ∀ k ≤ 9, entry (-2) k = some (if k = 8 then some 13 else none) := by decide

variable {v v' v'' : YYSTYPE}

theorem yyloop_heatSwitch : yyloop mallocs above (fuel + 3) 11
      (between [4, 1, 0] [v', v, above] yylval input heater stdout) =
    yyloop mallocs above fuel 1 (between [0] [above] yylval input heater (stdout ++ switched heater v'.number)) :=
  rfl

theorem yyloop_heaterSelect : yyloop mallocs above (fuel + 3) 10
      (between [3, 1, 0] [v', v, above] yylval input heater stdout) =
    yyloop mallocs above fuel 1 (between [0] [above] yylval input v'.string (stdout ++ selected v'.string)) :=
  rfl

theorem yyloop_targetSet : yyloop mallocs above (fuel + 3) 13
      (between [12, 5, 1, 0] [v'', v', v, above] yylval input heater stdout) =
    yyloop mallocs above fuel 1 (between [0] [above] yylval input heater (stdout ++ targetSet heater v''.number)) :=
  rfl

/-! ### The end of the input -/

/-- The end of the input, where a command could begin. -/
theorem yyloop_accept (hsymbol : symbol input = 0) : ∃ p : Parser,
    yyloop mallocs above (fuel + 2) 1 (between [0] [above] yylval input heater stdout) = some (0, p) ∧
      p.heater = heater ∧ p.stdout = stdout ∧ p.stderr = [] := by
  have hbackup : (between [1, 0] [above] yylval input heater stdout).yybackup above 1 =
      some (.newstate 2 (between [1, 0] [above] yylval input heater stdout).look.shift) :=
    yybackup_shift waits_commands (by rw [yytoken_look, hsymbol]; decide)
  obtain ⟨c, l, rest, hlook⟩ := exists_look [1, 0] [above] yylval input heater stdout
  rw [hlook] at hbackup
  refine ⟨⟨[2, 1, 0], [l, above], yyinitdepth, 0, 0, yyempty, l, rest, heater, stdout, []⟩, ?_, rfl, rfl, rfl⟩
  rw [yyloop, yysetstate_between (by decide) (by decide)]
  exact congrArg (Option.bind · _) hbackup

end Parser

/-! ## The parser does the commands -/

/-- The tokens before the end of the input. -/
def sentence (ts : List Token) : List Token := ts.takeWhile fun t => yyeof < t.yychar

section

variable {t u : Token} {ts rest : List Token}

theorem sentence_of_symbol (h : symbol ts = 0) : sentence ts = [] := by
  cases ts with
  | nil => rfl
  | cons t ts =>
    have hle : t.yychar ≤ yyeof := by
      unfold symbol translate yytranslate yyeof yymaxutok yyundeftok at h
      unfold yyeof
      dsimp only at h
      split_ifs at h <;> omega
    rw [sentence, List.takeWhile_cons_of_neg (by simpa using hle)]

theorem readCommand_of_ne (hheat : t.yychar ≠ tokheat) (hheater : t.yychar ≠ tokheater)
    (htarget : t.yychar ≠ toktarget) : readCommand (t :: ts) = none := by
  rcases ts with _ | ⟨u, _ | ⟨w, ts⟩⟩ <;> simp [readCommand, hheat, hheater, htarget]

theorem pos_of_symbol {k : Nat} (hk : 0 < k) (h : symbol (t :: ts) = k) : yyeof < t.yychar := by
  by_contra hle
  rw [symbol, if_pos (Int.not_lt.mp hle)] at h
  omega

theorem sentence_cons (h : yyeof < t.yychar) : sentence (t :: ts) = t :: sentence ts :=
  List.takeWhile_cons_of_pos (decide_eq_true h)

/-- A next token that is one of the tokens of the grammar. -/
theorem next_of_symbol {k : Nat} {c : Int} (hc : k + 255 = c) (hk : 3 ≤ k) (hk' : k ≤ 9)
    (h : symbol ts = k) :
    ∃ t rest, ts = t :: rest ∧ t.yychar = c ∧ sentence (t :: rest) = t :: sentence rest := by
  subst hc
  cases ts with
  | nil =>
    subst h
    cases hk
  | cons t rest =>
    exact ⟨t, rest, rfl, (symbol_eq_iff hk hk' rest).mp h, sentence_cons (pos_of_symbol (by omega) h)⟩

/-- `yyparse` has done `cs` and come back: with 0 if nothing is left, else with 1 and a message. -/
def Comes (heater stdout : Str) (x : List Command × List Token) (r : Option (Nat × Parser)) : Prop :=
  ∃ p : Parser, r = some (if x.2.isEmpty then 0 else 1, p) ∧
    p.stdout = stdout ++ (runCommands heater x.1).1 ∧ p.heater = (runCommands heater x.1).2 ∧
    p.stderr = if x.2.isEmpty then [] else lit "error: syntax error\n"

variable {mallocs : Nat → Bool} {above yylval : YYSTYPE} {yyss : List Nat} {yyvs : List YYSTYPE}
  {heater stdout : Str} {fuel s : Nat} {k : Int}

theorem Comes.reject (hs : Waits s k) (hroom : yyss.length + 1 < yyinitdepth)
    (hstates : ∀ s' ∈ s :: yyss, s' < yypact.length) (hentry : entry k (symbol ts) = some none)
    (hleft : rest ≠ []) :
    Comes heater stdout ([], rest)
      (yyloop mallocs above (fuel + 1) s (between yyss yyvs yylval ts heater stdout)) := by
  rw [yyloop_reject hs hroom hstates hentry]
  obtain ⟨c, l, rest', hlook⟩ := exists_look (s :: yyss) yyvs yylval ts heater stdout
  rw [hlook]
  have hempty : rest.isEmpty = false := by simpa using hleft
  exact ⟨_, by simp only [hempty]; rfl, (List.append_nil _).symm, rfl, by simp only [hempty]; rfl⟩

theorem Comes.cons {c : Command} {x : List Command × List Token} {r : Option (Nat × Parser)}
    (h : Comes (c.heater heater) (stdout ++ c.text heater) x r) :
    Comes heater stdout (c :: x.1, x.2) r := by
  obtain ⟨p, hr, hout, hheater, herr⟩ := h
  exact ⟨p, hr, by rw [hout, runCommands, List.append_assoc], by rw [hheater, runCommands], herr⟩

/-- The tokens of a command that begins as it should and goes on otherwise are left. -/
theorem readCommands_of_none {n : Nat} {ts : List Token} (h : readCommand ts = none) :
    readCommands n ts = ([], ts) := by
  cases n with
  | zero => rfl
  | succ n => rw [readCommands, h]

theorem comes_end {input : List Token} (hend : symbol input = 0) (n : Nat) :
    Comes heater stdout (readCommands n (sentence input))
      (yyloop mallocs above (fuel + 2) 1 (between [0] [above] yylval input heater stdout)) := by
  obtain ⟨p, hp, hheater, hout, herr⟩ : ∃ p : Parser,
      yyloop mallocs above (fuel + 2) 1 (between [0] [above] yylval input heater stdout) = some (0, p) ∧
        p.heater = heater ∧ p.stdout = stdout ∧ p.stderr = [] := yyloop_accept hend
  rw [sentence_of_symbol hend, readCommands_of_none rfl]
  exact ⟨p, hp, hout.trans (List.append_nil _).symm, hheater, herr⟩

/-! ### Reading a command by its first token -/

theorem head_of_sentence {k : Nat} {c : Int} (hc : k + 255 = c) (hk : 3 ≤ k) (hk' : k ≤ 9)
    (h : symbol ts ≠ k) : ∀ u rest, sentence ts = u :: rest → u.yychar ≠ c := by
  rintro u rest hsent hu
  subst hc
  cases ts with
  | nil => cases hsent
  | cons v ts =>
    by_cases hv : yyeof < v.yychar
    · rw [sentence_cons hv] at hsent
      obtain ⟨rfl, rfl⟩ := List.cons.inj hsent
      exact h ((symbol_eq_iff hk hk' ts).mpr hu)
    · rw [sentence, List.takeWhile_cons_of_neg (by simpa using hv)] at hsent
      cases hsent

theorem readCommand_tokheat (ht : t.yychar = tokheat) (h : symbol ts ≠ 7) :
    readCommand (t :: sentence ts) = none := by
  have hu := head_of_sentence (rfl : _ = state) (by decide) (by decide) h
  rcases hsent : sentence ts with _ | ⟨u, _ | ⟨w, rest⟩⟩
  · rfl
  · simp [readCommand, ht, tokheat, tokheater, hu u _ hsent]
  · simp [readCommand, ht, tokheat, tokheater, toktarget, hu u _ hsent]

theorem readCommand_tokheater (ht : t.yychar = tokheater) (h : symbol ts ≠ 9) :
    readCommand (t :: sentence ts) = none := by
  have hu := head_of_sentence (rfl : _ = word) (by decide) (by decide) h
  rcases hsent : sentence ts with _ | ⟨u, _ | ⟨w, rest⟩⟩
  · rfl
  · simp [readCommand, ht, tokheat, tokheater, hu u _ hsent]
  · simp [readCommand, ht, tokheat, tokheater, toktarget, hu u _ hsent]

theorem readCommand_toktarget (ht : t.yychar = toktarget) (h : symbol ts ≠ 6) :
    readCommand (t :: sentence ts) = none := by
  have hu := head_of_sentence (rfl : _ = toktemperature) (by decide) (by decide) h
  rcases hsent : sentence ts with _ | ⟨u, _ | ⟨w, rest⟩⟩
  · rfl
  · simp [readCommand, ht, tokheat, tokheater, toktarget]
  · simp [readCommand, ht, tokheat, tokheater, toktarget, hu u _ hsent]

theorem readCommand_toktemperature (ht : t.yychar = toktarget) (h : symbol ts ≠ 8) :
    readCommand (t :: u :: sentence ts) = none := by
  have hw := head_of_sentence (rfl : _ = number) (by decide) (by decide) h
  rcases hsent : sentence ts with _ | ⟨w, rest⟩
  · simp [readCommand, ht, tokheat, tokheater, toktarget]
  · simp [readCommand, ht, tokheat, tokheater, toktarget, hw w _ hsent]

theorem readCommand_heatSwitch (ht : t.yychar = tokheat) (hu : u.yychar = state) :
    readCommand (t :: u :: ts) = some (.heatSwitch u.yylval.number, ts) := if_pos ⟨ht, hu⟩

theorem readCommand_heaterSelect (ht : t.yychar = tokheater) (hu : u.yychar = word) :
    readCommand (t :: u :: ts) = some (.heaterSelect u.yylval.string, ts) := by
  cases ts <;> simp [readCommand, ht, hu, tokheat, tokheater]

theorem readCommand_targetSet {w : Token} (ht : t.yychar = toktarget) (hu : u.yychar = toktemperature)
    (hw : w.yychar = number) :
    readCommand (t :: u :: w :: ts) = some (.targetSet w.yylval.number, ts) := by
  simp [readCommand, ht, hu, hw, tokheat, tokheater, toktarget]

theorem Comes.read {c : Command} {n : Nat} {r : Option (Nat × Parser)}
    (hread : readCommand ts = some (c, rest))
    (h : Comes (c.heater heater) (stdout ++ c.text heater) (readCommands n rest) r) :
    Comes heater stdout (readCommands (n + 1) ts) r := by
  rw [readCommands, hread]
  exact .cons h

theorem Comes.unread {n : Nat} (hread : readCommand (t :: ts) = none) {input : List Token}
    (hs : Waits s k) (hroom : yyss.length + 1 < yyinitdepth) (hstates : ∀ s' ∈ s :: yyss, s' < yypact.length)
    (hentry : entry k (symbol input) = some none) :
    Comes heater stdout (readCommands n (t :: ts))
      (yyloop mallocs above (fuel + 1) s (between yyss yyvs yylval input heater stdout)) := by
  rw [readCommands_of_none hread]
  exact .reject hs hroom hstates hentry (List.cons_ne_nil _ _)

section Command

variable {input : List Token} {n : Nat} (hrest : ∀ (rest : List Token) {yylval : YYSTYPE} {heater stdout : Str} {m : Nat},
  (sentence rest).length + 1 ≤ (sentence input).length → fuel ≤ m →
    Comes heater stdout (readCommands n (sentence rest))
      (yyloop mallocs above m 1 (between [0] [above] yylval rest heater stdout)))

include hrest

/-- One command: it is read and the rest follows, or the first token out of place is rejected. -/
theorem comes_heatSwitch (hheat : symbol input = 4) :
    Comes heater stdout (readCommands (n + 1) (sentence input))
      (yyloop mallocs above (fuel + 6) 1 (between [0] [above] yylval input heater stdout)) := by
  obtain ⟨t, input, rfl, ht, hsent⟩ := next_of_symbol (rfl : _ = tokheat) (by decide) (by decide) hheat
  rw [hsent] at hrest ⊢
  rw [yyloop_shift waits_commands (by decide) (r := 3) (by rw [hheat]; rfl)]
  by_cases hstate : symbol input = 7
  · obtain ⟨u, input, rfl, hu, hsent⟩ := next_of_symbol (rfl : _ = state) (by decide) (by decide) hstate
    rw [hsent] at hrest ⊢
    rw [yyloop_shift waits_tokheat (by decide) (r := 10) (by rw [hstate]; rfl), yyloop_heatSwitch]
    exact .read (readCommand_heatSwitch ht hu) (hrest input (Nat.le_succ _) (Nat.le_add_right _ _))
  · refine .unread (readCommand_tokheat ht hstate) waits_tokheat (by decide) (by decide) ?_
    rw [entry_tokheat _ (symbol_le _), if_neg hstate]

theorem comes_heaterSelect (hheater : symbol input = 3) :
    Comes heater stdout (readCommands (n + 1) (sentence input))
      (yyloop mallocs above (fuel + 6) 1 (between [0] [above] yylval input heater stdout)) := by
  obtain ⟨t, input, rfl, ht, hsent⟩ := next_of_symbol (rfl : _ = tokheater) (by decide) (by decide) hheater
  rw [hsent] at hrest ⊢
  rw [yyloop_shift waits_commands (by decide) (r := 2) (by rw [hheater]; rfl)]
  by_cases hword : symbol input = 9
  · obtain ⟨u, input, rfl, hu, hsent⟩ := next_of_symbol (rfl : _ = word) (by decide) (by decide) hword
    rw [hsent] at hrest ⊢
    rw [yyloop_shift waits_tokheater (by decide) (r := 9) (by rw [hword]; rfl), yyloop_heaterSelect]
    exact .read (readCommand_heaterSelect ht hu) (hrest input (Nat.le_succ _) (Nat.le_add_right _ _))
  · refine .unread (readCommand_tokheater ht hword) waits_tokheater (by decide) (by decide) ?_
    rw [entry_tokheater _ (symbol_le _), if_neg hword]

theorem comes_targetSet (htarget : symbol input = 5) :
    Comes heater stdout (readCommands (n + 1) (sentence input))
      (yyloop mallocs above (fuel + 6) 1 (between [0] [above] yylval input heater stdout)) := by
  obtain ⟨t, input, rfl, ht, hsent⟩ := next_of_symbol (rfl : _ = toktarget) (by decide) (by decide) htarget
  rw [hsent] at hrest ⊢
  rw [yyloop_shift waits_commands (by decide) (r := 4) (by rw [htarget]; rfl)]
  by_cases htemp : symbol input = 6
  · obtain ⟨u, input, rfl, hu, hsent⟩ :=
      next_of_symbol (rfl : _ = toktemperature) (by decide) (by decide) htemp
    rw [hsent] at hrest ⊢
    rw [yyloop_shift waits_toktarget (by decide) (r := 11) (by rw [htemp]; rfl)]
    by_cases hnumber : symbol input = 8
    · obtain ⟨w, input, rfl, hw, hsent⟩ := next_of_symbol (rfl : _ = number) (by decide) (by decide) hnumber
      rw [hsent] at hrest ⊢
      rw [yyloop_shift waits_toktemperature (by decide) (r := 12) (by rw [hnumber]; rfl), yyloop_targetSet]
      refine .read (readCommand_targetSet ht hu hw) (hrest input ?_ (Nat.le_refl _))
      simp only [List.length_cons]
      omega
    · refine .unread (readCommand_toktemperature ht hnumber) waits_toktemperature (by decide) (by decide) ?_
      rw [entry_toktemperature _ (symbol_le _), if_neg hnumber]
  · refine .unread (readCommand_toktarget ht htemp) waits_toktarget (by decide) (by decide) ?_
    rw [entry_toktarget _ (symbol_le _), if_neg htemp]

end Command

/-- **Command by command.** -/
theorem yyloop_commands : ∀ (n : Nat) (input : List Token) {yylval : YYSTYPE} {heater stdout : Str}
    {fuel : Nat}, (sentence input).length ≤ n → 6 * n + 2 ≤ fuel →
    Comes heater stdout (readCommands n (sentence input))
      (yyloop mallocs above fuel 1 (between [0] [above] yylval input heater stdout)) := by
  intro n
  induction n with
  | zero =>
    intro input yylval heater stdout fuel hlen hfuel
    obtain ⟨fuel, rfl⟩ : ∃ m, fuel = m + 2 := ⟨fuel - 2, by omega⟩
    refine comes_end ?_ 0
    cases input with
    | nil => rfl
    | cons t input =>
      by_contra hpos
      rw [sentence_cons (pos_of_symbol (Nat.pos_of_ne_zero hpos) rfl)] at hlen
      cases hlen
  | succ n ih =>
    intro input yylval heater stdout fuel hlen hfuel
    obtain ⟨fuel, rfl⟩ : ∃ m, fuel = m + 6 := ⟨fuel - 6, by omega⟩
    have hrest (rest : List Token) {yylval : YYSTYPE} {heater stdout : Str} {m : Nat}
        (hlt : (sentence rest).length + 1 ≤ (sentence input).length) (hm : fuel ≤ m) :
        Comes heater stdout (readCommands n (sentence rest))
          (yyloop mallocs above m 1 (between [0] [above] yylval rest heater stdout)) :=
      ih rest (by omega) (by omega)
    by_cases hend : symbol input = 0
    · exact comes_end hend (n + 1)
    by_cases hheat : symbol input = 4
    · exact comes_heatSwitch hrest hheat
    by_cases hheater : symbol input = 3
    · exact comes_heaterSelect hrest hheater
    by_cases htarget : symbol input = 5
    · exact comes_targetSet hrest htarget
    cases input with
    | nil => exact absurd rfl hend
    | cons t input =>
      have hread : readCommand (t :: sentence input) = none := readCommand_of_ne
        (fun h => hheat ((symbol_eq_iff (by decide) (by decide) input).mpr h))
        (fun h => hheater ((symbol_eq_iff (by decide) (by decide) input).mpr h))
        (fun h => htarget ((symbol_eq_iff (by decide) (by decide) input).mpr h))
      rw [sentence_cons (pos_of_symbol (Nat.pos_of_ne_zero hend) rfl)]
      refine .unread hread waits_commands (by decide) (by decide) ?_
      rw [entry_commands _ (symbol_le _), if_neg hend, if_neg hheater, if_neg hheat, if_neg htarget]

end

/-! ## The sentences are the sentences of the grammar -/

theorem exists_of_readCommand {ts rest : List Token} {c : Command} (h : readCommand ts = some (c, rest)) :
    ∃ w, ts = w ++ rest ∧ w.map Token.yychar ∈ commandWords := by
  unfold readCommand at h
  split at h
  · next t u ts =>
    split_ifs at h with hheat hheater
    · cases h
      exact ⟨[t, u], rfl, mem_commandWords.mpr (Or.inl (by simp [hheat]))⟩
    · cases h
      exact ⟨[t, u], rfl, mem_commandWords.mpr (Or.inr (Or.inr (by simp [hheater])))⟩
    · split at h
      · next w ts =>
        split_ifs at h with htarget
        cases h
        exact ⟨[t, u, w], rfl, mem_commandWords.mpr (Or.inr (Or.inl (by simp [htarget])))⟩
      · cases h
  · cases h

theorem readCommand_of_mem {w : List Int} (hw : w ∈ commandWords) {ts : List Token} {rest : List Int}
    (h : ts.map Token.yychar = w ++ rest) :
    ∃ c ts', readCommand ts = some (c, ts') ∧ ts'.map Token.yychar = rest ∧ ts'.length < ts.length := by
  rcases mem_commandWords.mp hw with rfl | rfl | rfl
  · obtain ⟨t, _, rfl, ht, h⟩ := List.map_eq_cons_iff.mp h
    obtain ⟨u, ts, rfl, hu, h⟩ := List.map_eq_cons_iff.mp h
    exact ⟨_, ts, readCommand_heatSwitch ht hu, h, by simp only [List.length_cons]; omega⟩
  · obtain ⟨t, _, rfl, ht, h⟩ := List.map_eq_cons_iff.mp h
    obtain ⟨u, _, rfl, hu, h⟩ := List.map_eq_cons_iff.mp h
    obtain ⟨v, ts, rfl, hv, h⟩ := List.map_eq_cons_iff.mp h
    exact ⟨_, ts, readCommand_targetSet ht hu hv, h, by simp only [List.length_cons]; omega⟩
  · obtain ⟨t, _, rfl, ht, h⟩ := List.map_eq_cons_iff.mp h
    obtain ⟨u, ts, rfl, hu, h⟩ := List.map_eq_cons_iff.mp h
    exact ⟨_, ts, readCommand_heaterSelect ht hu, h, by simp only [List.length_cons]; omega⟩

theorem mem_of_readCommands : ∀ (n : Nat) {ts : List Token}, (readCommands n ts).2 = [] →
    ts.map Token.yychar ∈ commandWords∗ := by
  intro n
  induction n with
  | zero =>
    intro ts h
    rw [readCommands] at h
    subst h
    exact Language.nil_mem_kstar _
  | succ n ih =>
    intro ts h
    rw [readCommands] at h
    split at h
    · next c rest hread =>
      obtain ⟨w, rfl, hw⟩ := exists_of_readCommand hread
      rw [List.map_append, ← Language.one_add_self_mul_kstar_eq_kstar]
      exact Or.inr (Language.append_mem_mul hw (ih h))
    · have h : ts = [] := h
      subst h
      exact Language.nil_mem_kstar _

theorem readCommands_of_mem : ∀ (ws : List (List Int)) {n : Nat} {ts : List Token},
    (∀ w ∈ ws, w ∈ commandWords) → ts.map Token.yychar = ws.flatten → ts.length ≤ n →
    (readCommands n ts).2 = [] := by
  intro ws
  induction ws with
  | nil =>
    intro n ts _ h _
    rw [List.map_eq_nil_iff.mp h, readCommands_of_none rfl]
  | cons w ws ih =>
    intro n ts hws h hlen
    obtain ⟨c, rest, hread, hrest, hlt⟩ := readCommand_of_mem (hws w List.mem_cons_self) h
    cases n with
    | zero => omega
    | succ n =>
      rw [readCommands, hread]
      exact ih (fun v hv => hws v (List.mem_cons_of_mem w hv)) hrest (by omega)

/-- Everything is read if and only if it is a sentence. -/
theorem readCommands_eq_nil_iff {n : Nat} {ts : List Token} (hlen : ts.length ≤ n) :
    (readCommands n ts).2 = [] ↔ ts.map Token.yychar ∈ example5.language := by
  rw [language_example5]
  constructor
  · exact mem_of_readCommands n
  · intro h
    obtain ⟨ws, hflat, hws⟩ := Language.mem_kstar.mp h
    exact readCommands_of_mem ws hws hflat hlen

/-- **The tables parse the grammar.** Whatever the tokens, `yyparse` comes back: with 0 if those before
the end of the input are a sentence of the grammar, else with 1 and a message. It has run the actions of
the commands from the first on as far as they are complete, in their order, and it needs no memory. -/
theorem yyparse_eq (mallocs : Nat → Bool) (above yylval : YYSTYPE) (tokens : List Token) (heater : Str)
    (k : Nat) : ∃ yyresult p,
      yyparse mallocs above (6 * tokens.length + 3 + k) yylval tokens heater = some (yyresult, p) ∧
      yyresult ≤ 1 ∧
      (yyresult = 0 ↔ (sentence tokens).map Token.yychar ∈ example5.language) ∧
      (p.stdout, p.heater) = runCommands heater (readCommands tokens.length (sentence tokens)).1 ∧
      p.stderr = if yyresult = 0 then [] else lit "error: syntax error\n" := by
  have hlen : (sentence tokens).length ≤ tokens.length := (List.takeWhile_sublist _).length_le
  have hcomes : Comes heater [] (readCommands tokens.length (sentence tokens))
      (yyloop mallocs above (6 * tokens.length + 2 + k) 1 (between [0] [above] yylval tokens heater [])) :=
    yyloop_commands tokens.length tokens hlen (by omega)
  obtain ⟨p, hp, hout, hheater, herr⟩ := hcomes
  have hstart : yyparse mallocs above (6 * tokens.length + 3 + k) yylval tokens heater =
      yyloop mallocs above (6 * tokens.length + 2 + k) 1 (between [0] [above] yylval tokens heater []) := by
    rw [show 6 * tokens.length + 3 + k = (6 * tokens.length + 2 + k) + 1 by omega]
    rfl
  rw [hstart, hp, ← readCommands_eq_nil_iff hlen, ← List.isEmpty_iff]
  have hrun : (p.stdout, p.heater) = runCommands heater (readCommands tokens.length (sentence tokens)).1 := by
    rw [hout, hheater]
    rfl
  cases hleft : (readCommands tokens.length (sentence tokens)).2.isEmpty with
  | true =>
    rw [hleft] at herr
    exact ⟨0, p, rfl, by decide, by simp, hrun, herr⟩
  | false =>
    rw [hleft] at herr
    exact ⟨1, p, rfl, by decide, by simp, hrun, herr⟩

end CxxLab.YaccLab
