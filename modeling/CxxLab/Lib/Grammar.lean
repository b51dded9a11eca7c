import Mathlib

/-!
# Languages of context-free grammars

To show that a grammar generates nothing but the words of a language one gives each nonterminal a
language and checks the rules one by one.
-/

set_option autoImplicit false

namespace CxxLab.Lib.Grammar

variable {T N : Type}

/-- What a symbol stands for, given that for the nonterminals. -/
def meaning (I : N → Language T) : Symbol T N → Language T
  | .terminal t => {[t]}
  | .nonterminal n => I n

/-- A rule whose words are words of its nonterminal. -/
def Sound (I : N → Language T) (r : ContextFreeRule T N) : Prop :=
  (r.output.map (meaning I)).prod ≤ I r.input

theorem mem_prod_terminals (I : N → Language T) (w : List T) :
    w ∈ ((w.map Symbol.terminal).map (meaning I)).prod := by
  induction w with
  | nil => exact Language.nil_mem_one
  | cons t w ih =>
    rw [List.map_cons, List.map_cons, List.prod_cons]
    exact Language.mem_mul.mpr ⟨[t], rfl, w, ih, rfl⟩

variable {g : ContextFreeGrammar T}

theorem prod_le_of_produces {I : g.NT → Language T} (h : ∀ r ∈ g.rules, Sound I r)
    {u v : List (Symbol T g.NT)} (hstep : g.Produces u v) :
    (v.map (meaning I)).prod ≤ (u.map (meaning I)).prod := by
  obtain ⟨r, hr, hrewrites⟩ := hstep
  obtain ⟨before, after, rfl, rfl⟩ := hrewrites.exists_parts
  simp only [List.map_append, List.prod_append, List.map_cons, List.map_nil, List.prod_singleton]
  gcongr
  exact h r hr

theorem prod_le_of_derives {I : g.NT → Language T} (h : ∀ r ∈ g.rules, Sound I r)
    {u v : List (Symbol T g.NT)} (hderives : g.Derives u v) :
    (v.map (meaning I)).prod ≤ (u.map (meaning I)).prod := by
  induction hderives with
  | refl => exact le_rfl
  | tail _ hstep ih => exact (prod_le_of_produces h hstep).trans ih

/-- **Sound rules generate only words of the language.** -/
theorem language_le {I : g.NT → Language T} (h : ∀ r ∈ g.rules, Sound I r) :
    g.language ≤ I g.initial := by
  intro w hw
  have hword := prod_le_of_derives h hw (mem_prod_terminals I w)
  rwa [List.map_singleton, List.prod_singleton] at hword

theorem derives_rule {r : ContextFreeRule T g.NT} (hr : r ∈ g.rules) :
    g.Derives [.nonterminal r.input] r.output :=
  .single ⟨r, hr, .input_output⟩

end CxxLab.Lib.Grammar
