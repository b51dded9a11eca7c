import CxxLab.Lib.Pattern

/-!
# Scanners

A scanner has numbered rules, each a pattern, and takes the longest prefix of the text that one of them
matches; if several match it, the first one counts. An automaton can do this for it, if from each state it
accepts what is left of the rules there. To check an automaton it is enough to know for each state a word
that leads there (`Certified`).
-/

set_option autoImplicit false

namespace CxxLab.Lib.Scanner

variable {α : Type} [LE α] [DecidableLE α]

/-- Rules, or what is left of them. -/
abbrev Rules (α : Type) := List (Nat × Pattern α)

/-- What is left of the rules after `a`. -/
def after (rs : Rules α) (a : α) : Rules α := rs.flatMap fun r => (r.2.rest a).map (r.1, ·)

def afterAll (rs : Rules α) (w : List α) : Rules α := w.foldl after rs

/-- The rules that match the empty word. -/
def done (rs : Rules α) : List Nat := (rs.filter fun r => r.2.nullable).map Prod.fst

/-- The first rule that matches a word. -/
def firstRule (rs : Rules α) (w : List α) : Option Nat := (done (afterAll rs w)).min?

/-- Rule `n` matches the word. -/
def Matches (rs : Rules α) (n : Nat) (w : List α) : Prop := ∃ p, (n, p) ∈ rs ∧ w ∈ p.lang

/-- The longest prefix of the text that a rule matches has `k` symbols, and rule `n` is the first to match it. -/
structure IsLongest (rs : Rules α) (text : List α) (k n : Nat) : Prop where
  pos : 0 < k
  le : k ≤ text.length
  rule : Matches rs n (text.take k)
  first : ∀ m, Matches rs m (text.take k) → n ≤ m
  longest : ∀ j, k < j → j ≤ text.length → ∀ m, ¬ Matches rs m (text.take j)

/-- What a text is read as: the longest match by the rules of a start condition, what the rule's action gives
for it and, if the action goes on, the rest by the rules of the next start condition. -/
inductive Lexed {β : Type} (rules : Nat → Rules α) (act : Nat → Nat → List α → List β × Option Nat) :
    Nat → List α → List β → Prop
  | nil {q : Nat} : Lexed rules act q [] []
  | stop {q k n : Nat} {text : List α} {out : List β} : IsLongest (rules q) text k n →
      act q n (text.take k) = (out, none) → Lexed rules act q text out
  | more {q q' k n : Nat} {text : List α} {out rest : List β} : IsLongest (rules q) text k n →
      act q n (text.take k) = (out, some q') → Lexed rules act q' (text.drop k) rest →
      Lexed rules act q text (out ++ rest)

/-! ## The first rule -/

theorem matches_after (rs : Rules α) (a : α) (n : Nat) (w : List α) :
    Matches (after rs a) n w ↔ Matches rs n (a :: w) := by
  simp only [Matches, after, List.mem_flatMap, List.mem_map]
  constructor
  · rintro ⟨q, ⟨⟨m, p⟩, hp, q', hq, h⟩, hw⟩
    obtain ⟨rfl, rfl⟩ := Prod.mk.inj h
    exact ⟨p, hp, (Pattern.mem_rest_iff a w p).mp ⟨q', hq, hw⟩⟩
  · rintro ⟨p, hp, hw⟩
    obtain ⟨q, hq, hw⟩ := (Pattern.mem_rest_iff a w p).mpr hw
    exact ⟨q, ⟨(n, p), hp, q, hq, rfl⟩, hw⟩

theorem matches_afterAll : ∀ (w : List α) (rs : Rules α) (n : Nat),
    Matches (afterAll rs w) n [] ↔ Matches rs n w := by
  intro w
  induction w with
  | nil => intros; rfl
  | cons a w ih =>
    intro rs n
    exact (ih (after rs a) n).trans (matches_after rs a n w)

theorem mem_done_iff {rs : Rules α} {n : Nat} : n ∈ done rs ↔ Matches rs n [] := by
  simp only [done, List.mem_map, List.mem_filter, Matches, Pattern.nil_mem_lang_iff]
  constructor
  · rintro ⟨⟨m, p⟩, h, rfl⟩
    exact ⟨p, h⟩
  · rintro ⟨p, h⟩
    exact ⟨(n, p), h, rfl⟩

/-- **The first rule that matches.** -/
theorem firstRule_eq_some_iff {rs : Rules α} {w : List α} {n : Nat} :
    firstRule rs w = some n ↔ Matches rs n w ∧ ∀ m, Matches rs m w → n ≤ m := by
  simp only [firstRule, List.min?_eq_some_iff, mem_done_iff, matches_afterAll]

theorem firstRule_eq_none_iff {rs : Rules α} {w : List α} :
    firstRule rs w = none ↔ ∀ n, ¬ Matches rs n w := by
  simp only [firstRule, List.min?_eq_none_iff, List.eq_nil_iff_forall_not_mem, mem_done_iff,
    matches_afterAll]

/-! ## The longest prefix -/

theorem isLongest_of_firstRule {rs : Rules α} {text : List α} {k n : Nat} (hpos : 0 < k)
    (hle : k ≤ text.length) (hk : firstRule rs (text.take k) = some n)
    (hmax : ∀ j, k < j → j ≤ text.length → firstRule rs (text.take j) = none) : IsLongest rs text k n := by
  obtain ⟨hmatches, hfirst⟩ := firstRule_eq_some_iff.mp hk
  exact ⟨hpos, hle, hmatches, hfirst, fun j hj hjlen => firstRule_eq_none_iff.mp (hmax j hj hjlen)⟩

theorem IsLongest.unique {rs : Rules α} {text : List α} {k n k' n' : Nat} (h : IsLongest rs text k n)
    (h' : IsLongest rs text k' n') : k = k' ∧ n = n' := by
  rcases Nat.lt_trichotomy k k' with hlt | rfl | hlt
  · exact absurd h'.rule (h.longest k' hlt h'.le n')
  · exact ⟨rfl, Nat.le_antisymm (h.first n' h'.rule) (h'.first n h.rule)⟩
  · exact absurd h.rule (h'.longest k hlt h.le n)

theorem IsLongest.ne_nil {rs : Rules α} {text : List α} {k n : Nat} (h : IsLongest rs text k n) : text ≠ [] := by
  rintro rfl
  exact absurd h.le (Nat.not_le.mpr h.pos)

/-- **A text is read as one thing only.** -/
theorem Lexed.unique {β : Type} {rules : Nat → Rules α} {act : Nat → Nat → List α → List β × Option Nat}
    {q : Nat} {text : List α} {out out' : List β} (h : Lexed rules act q text out)
    (h' : Lexed rules act q text out') : out = out' := by
  induction h generalizing out' with
  | nil =>
    cases h' with
    | nil => rfl
    | stop hlong => exact absurd rfl hlong.ne_nil
    | more hlong => exact absurd rfl hlong.ne_nil
  | stop hlong hact =>
    cases h' with
    | nil => exact absurd rfl hlong.ne_nil
    | stop hlong' hact' =>
      obtain ⟨rfl, rfl⟩ := hlong.unique hlong'
      rw [hact] at hact'
      exact (Prod.mk.inj hact').1
    | more hlong' hact' =>
      obtain ⟨rfl, rfl⟩ := hlong.unique hlong'
      rw [hact] at hact'
      cases (Prod.mk.inj hact').2
  | more hlong hact hrest ih =>
    cases h' with
    | nil => exact absurd rfl hlong.ne_nil
    | stop hlong' hact' =>
      obtain ⟨rfl, rfl⟩ := hlong.unique hlong'
      rw [hact] at hact'
      cases (Prod.mk.inj hact').2
    | more hlong' hact' hrest' =>
      obtain ⟨rfl, rfl⟩ := hlong.unique hlong'
      rw [hact] at hact'
      obtain ⟨rfl, hq⟩ := Prod.mk.inj hact'
      obtain rfl := Option.some.inj hq
      rw [ih hrest']

/-! ## Automata -/

/-- The same rules are left, in whatever order and number. -/
def Same (rs rs' : Rules α) : Prop := ∀ r, r ∈ rs ↔ r ∈ rs'

omit [LE α] [DecidableLE α] in
theorem same_iff {rs rs' : Rules α} : Same rs rs' ↔ rs ⊆ rs' ∧ rs' ⊆ rs :=
  ⟨fun h => ⟨fun r => (h r).mp, fun r => (h r).mpr⟩, fun h _ => ⟨fun hr => h.1 hr, fun hr => h.2 hr⟩⟩

instance [DecidableEq α] (rs rs' : Rules α) : Decidable (Same rs rs') :=
  decidable_of_iff _ same_iff.symm

theorem Same.after {rs rs' : Rules α} (h : Same rs rs') (a : α) : Same (after rs a) (after rs' a) := by
  intro r
  simp only [Scanner.after, List.mem_flatMap, h _]

theorem Same.firstRule {rs rs' : Rules α} (h : Same rs rs') (w : List α) :
    firstRule rs w = firstRule rs' w := by
  have hmatches (n : Nat) (v : List α) : Matches rs n v ↔ Matches rs' n v := by
    simp only [Matches, h _]
  cases hn : Scanner.firstRule rs' w with
  | none => exact firstRule_eq_none_iff.mpr fun n => (hmatches n w).not.mpr (firstRule_eq_none_iff.mp hn n)
  | some n =>
    obtain ⟨hn, hmin⟩ := firstRule_eq_some_iff.mp hn
    exact firstRule_eq_some_iff.mpr ⟨(hmatches n w).mpr hn, fun m hm => hmin m ((hmatches m w).mp hm)⟩

/-- From each of the states `S` the automaton goes on as the rules `left` there do. -/
structure Certified {σ : Type} (step : σ → α → σ) (accept : σ → Option Nat) (left : σ → Rules α)
    (S : List σ) : Prop where
  accepts : ∀ s ∈ S, accept s = (done (left s)).min?
  closed : ∀ s ∈ S, ∀ a, step s a ∈ S
  follows : ∀ s ∈ S, ∀ a, Same (after (left s) a) (left (step s a))

omit [LE α] [DecidableLE α] in
def classes (rs : Rules α) : List (List (α × α)) := rs.flatMap fun r => r.2.classes

theorem after_congr {rs : Rules α} {a b : α}
    (h : ∀ r ∈ classes rs, Pattern.within a r = Pattern.within b r) : after rs a = after rs b := by
  simp only [after]
  refine List.flatMap_congr fun p hp => ?_
  rw [Pattern.rest_congr p.2 fun r hr => h r (List.mem_flatMap.mpr ⟨p, hp, hr⟩)]

namespace Certified

variable {σ : Type} {step : σ → α → σ} {accept : σ → Option Nat} {left : σ → Rules α} {S : List σ}

/-- To check an automaton some of the symbols are enough, if each symbol is like one of these. -/
theorem of_some (few : List α) (cs : List (List (α × α))) (hfew : ∀ a, ∃ b ∈ few,
      (∀ s, step s a = step s b) ∧ ∀ r ∈ cs, Pattern.within a r = Pattern.within b r)
    (hclasses : ∀ s ∈ S, ∀ r ∈ classes (left s), r ∈ cs) (haccepts : ∀ s ∈ S, accept s = (done (left s)).min?)
    (hclosed : ∀ s ∈ S, ∀ b ∈ few, step s b ∈ S)
    (hfollows : ∀ s ∈ S, ∀ b ∈ few, Same (after (left s) b) (left (step s b))) :
    Certified step accept left S where
  accepts := haccepts
  closed := by
    intro s hs a
    obtain ⟨b, hb, hstep, -⟩ := hfew a
    rw [hstep s]
    exact hclosed s hs b hb
  follows := by
    intro s hs a
    obtain ⟨b, hb, hstep, hwithin⟩ := hfew a
    rw [hstep s, after_congr fun r hr => hwithin r (hclasses s hs r hr)]
    exact hfollows s hs b hb

theorem run_mem (h : Certified step accept left S) :
    ∀ (w : List α) {s : σ}, s ∈ S → w.foldl step s ∈ S := by
  intro w
  induction w with
  | nil => exact fun hs => hs
  | cons a w ih => exact fun hs => ih (h.closed _ hs a)

/-- **It accepts what the first rule to match is.** -/
theorem accept_run (h : Certified step accept left S) :
    ∀ (w : List α) {s : σ}, s ∈ S → accept (w.foldl step s) = firstRule (left s) w := by
  intro w
  induction w with
  | nil => exact fun hs => h.accepts _ hs
  | cons a w ih =>
    intro s hs
    rw [List.foldl_cons, ih (h.closed s hs a), ← (h.follows s hs a).firstRule]
    rfl

end Certified

end CxxLab.Lib.Scanner
