import Mathlib.Computability.Language

/-!
# Patterns

Regular expressions over a type of symbols, with classes of symbols in place of single ones. What is left
to match after a symbol is a list of patterns (`rest`), so a word is matched by going from list to list.
Such lists are compared as they stand, which is enough to see that an automaton with finitely many states
does the same.
-/

set_option autoImplicit false

namespace CxxLab.Lib

open scoped Computability

section Words

variable {α : Type}

theorem cons_mem_mul {L M : Language α} {a : α} {w : List α} : a :: w ∈ L * M ↔
    (∃ u v, u ++ v = w ∧ a :: u ∈ L ∧ v ∈ M) ∨ [] ∈ L ∧ a :: w ∈ M := by
  rw [Language.mem_mul]
  constructor
  · rintro ⟨u, hu, v, hv, h⟩
    cases u with
    | nil => exact Or.inr ⟨hu, h ▸ hv⟩
    | cons b u =>
      obtain ⟨rfl, htail⟩ := List.cons.inj h
      exact Or.inl ⟨u, v, htail, hu, hv⟩
  · rintro (⟨u, v, rfl, hu, hv⟩ | ⟨hL, hM⟩)
    · exact ⟨a :: u, hu, v, hv, rfl⟩
    · exact ⟨[], hL, a :: w, hM, rfl⟩

theorem cons_mem_kstar {L : Language α} {a : α} {w : List α} : a :: w ∈ L∗ ↔
    ∃ u v, u ++ v = w ∧ a :: u ∈ L ∧ v ∈ L∗ := by
  constructor
  · intro h
    obtain ⟨ws, hw, hws⟩ := Language.mem_kstar_iff_exists_nonempty.mp h
    cases ws with
    | nil => cases hw
    | cons u ws =>
      obtain ⟨hu, hne⟩ := hws u List.mem_cons_self
      cases u with
      | nil => exact absurd rfl hne
      | cons b u =>
        rw [List.flatten_cons, List.cons_append] at hw
        obtain ⟨rfl, htail⟩ := List.cons.inj hw
        exact ⟨u, ws.flatten, htail.symm, hu,
          Language.join_mem_kstar fun v hv => (hws v (List.mem_cons_of_mem _ hv)).1⟩
  · rintro ⟨u, v, rfl, hu, hv⟩
    rw [← Language.one_add_self_mul_kstar_eq_kstar]
    exact Or.inr (Language.append_mem_mul hu hv)

end Words

/-- A regular expression. A class is a list of ranges. -/
inductive Pattern (α : Type) where
  | nil
  | oneOf (ranges : List (α × α))
  | seq (p q : Pattern α)
  | alt (p q : Pattern α)
  | star (p : Pattern α)
  deriving DecidableEq

namespace Pattern

variable {α : Type} [LE α] [DecidableLE α]

/-- Whether a symbol is in one of the ranges. -/
def within (a : α) (ranges : List (α × α)) : Bool := ranges.any fun r => r.1 ≤ a ∧ a ≤ r.2

/-- The words that match. -/
def lang : Pattern α → Language α
  | nil => 1
  | oneOf ranges => {w | ∃ a, w = [a] ∧ within a ranges = true}
  | seq p q => p.lang * q.lang
  | alt p q => p.lang + q.lang
  | star p => p.lang∗

omit [LE α] [DecidableLE α] in
/-- Whether the empty word matches. -/
def nullable : Pattern α → Bool
  | nil => true
  | oneOf _ => false
  | seq p q => p.nullable && q.nullable
  | alt p q => p.nullable || q.nullable
  | star _ => true

omit [LE α] [DecidableLE α] in
/-- `seq`, without a `nil` in front. -/
def andThen : Pattern α → Pattern α → Pattern α
  | nil, q => q
  | p, q => seq p q

/-- What is left to match after `a`, any of the patterns. -/
def rest (a : α) : Pattern α → List (Pattern α)
  | nil => []
  | oneOf ranges => if within a ranges then [nil] else []
  | seq p q => (p.rest a).map (andThen · q) ++ if p.nullable then q.rest a else []
  | alt p q => p.rest a ++ q.rest a
  | star p => (p.rest a).map (andThen · (star p))

omit [LE α] [DecidableLE α] in
/-- The classes that occur. -/
def classes : Pattern α → List (List (α × α))
  | nil => []
  | oneOf ranges => [ranges]
  | seq p q => p.classes ++ q.classes
  | alt p q => p.classes ++ q.classes
  | star p => p.classes

/-- Symbols that no class tells apart leave the same. -/
theorem rest_congr {a b : α} (p : Pattern α) (h : ∀ r ∈ p.classes, within a r = within b r) :
    p.rest a = p.rest b := by
  induction p with
  | nil => rfl
  | oneOf ranges => rw [rest, rest, h ranges (List.mem_singleton_self _)]
  | seq p q ihp ihq =>
    rw [rest, rest, ihp fun r hr => h r (List.mem_append_left _ hr),
      ihq fun r hr => h r (List.mem_append_right _ hr)]
  | alt p q ihp ihq =>
    rw [rest, rest, ihp fun r hr => h r (List.mem_append_left _ hr),
      ihq fun r hr => h r (List.mem_append_right _ hr)]
  | star p ih => rw [rest, rest, ih h]

/-! ## What they match -/

theorem nil_mem_lang_iff (p : Pattern α) : [] ∈ p.lang ↔ p.nullable = true := by
  induction p with
  | nil => exact iff_of_true Language.nil_mem_one rfl
  | oneOf ranges =>
    refine iff_of_false ?_ nofun
    rintro ⟨a, h, -⟩
    cases h
  | seq p q ihp ihq =>
    rw [nullable, Bool.and_eq_true, ← ihp, ← ihq, lang, Language.mem_mul]
    constructor
    · rintro ⟨u, hu, v, hv, h⟩
      obtain ⟨rfl, rfl⟩ := List.append_eq_nil_iff.mp h
      exact ⟨hu, hv⟩
    · rintro ⟨hp, hq⟩
      exact ⟨[], hp, [], hq, rfl⟩
  | alt p q ihp ihq => rw [nullable, Bool.or_eq_true, ← ihp, ← ihq, lang, Language.mem_add]
  | star p ih => exact iff_of_true (Language.nil_mem_kstar _) rfl

theorem lang_andThen (p q : Pattern α) : (andThen p q).lang = p.lang * q.lang := by
  cases p <;> first | rfl | exact (one_mul _).symm

theorem exists_andThen_iff {ps : List (Pattern α)} {q : Pattern α} {w : List α} :
    (∃ p ∈ ps.map (andThen · q), w ∈ p.lang) ↔
      ∃ u v, u ++ v = w ∧ (∃ p ∈ ps, u ∈ p.lang) ∧ v ∈ q.lang := by
  constructor
  · rintro ⟨_, hmem, hw⟩
    obtain ⟨p, hp, rfl⟩ := List.mem_map.mp hmem
    rw [lang_andThen, Language.mem_mul] at hw
    obtain ⟨u, hu, v, hv, h⟩ := hw
    exact ⟨u, v, h, ⟨p, hp, hu⟩, hv⟩
  · rintro ⟨u, v, rfl, ⟨p, hp, hu⟩, hv⟩
    refine ⟨andThen p q, List.mem_map.mpr ⟨p, hp, rfl⟩, ?_⟩
    rw [lang_andThen]
    exact Language.append_mem_mul hu hv

/-- **What is left to match**, symbol by symbol. -/
theorem mem_rest_iff (a : α) (w : List α) (p : Pattern α) :
    (∃ q ∈ p.rest a, w ∈ q.lang) ↔ a :: w ∈ p.lang := by
  induction p generalizing w with
  | nil => exact iff_of_false (by rintro ⟨q, hq, -⟩; cases hq) (by rintro ⟨⟩)
  | oneOf ranges =>
    rw [rest, lang]
    constructor
    · rintro ⟨q, hq, hw⟩
      split at hq
      · next ha =>
        rw [List.mem_singleton.mp hq] at hw
        exact ⟨a, by rw [(Language.mem_one w).mp hw], ha⟩
      · cases hq
    · rintro ⟨b, h, hb⟩
      obtain ⟨rfl, rfl⟩ := List.cons.inj h
      rw [if_pos hb]
      exact ⟨nil, List.mem_singleton_self _, Language.nil_mem_one⟩
  | seq p q ihp ihq =>
    rw [rest, lang, cons_mem_mul, nil_mem_lang_iff]
    simp only [List.mem_append, or_and_right, exists_or, exists_andThen_iff, ihp]
    refine or_congr Iff.rfl ?_
    split
    · next hp => simp only [ihq, hp, true_and]
    · next hp => simp only [hp, List.not_mem_nil, false_and, exists_false, Bool.false_eq_true]
  | alt p q ihp ihq =>
    rw [rest, lang, Language.mem_add, ← ihp, ← ihq]
    simp only [List.mem_append, or_and_right, exists_or]
  | star p ih =>
    rw [rest, lang, cons_mem_kstar, exists_andThen_iff]
    simp only [ih]
    rfl

end Pattern

end CxxLab.Lib
