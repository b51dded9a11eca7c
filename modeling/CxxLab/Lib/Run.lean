import Mathlib.Data.List.Forall2
import Mathlib.Data.List.Induction

/-!
# Runs of a step function

A system that takes one step after another, each of which may have no result. `runSteps` is a
whole run, `Along` says something of every step of one — in the state the step is taken in — and
`Along.run_history` is the induction all the run theorems go through: an invariant that every such
step keeps, and that gives it a result, holds at the end and the run has an end.
-/

set_option autoImplicit false

namespace CxxLab.Lib

variable {σ α : Type}

/-- Take the steps in order. -/
def runSteps (step : σ → α → Option σ) : σ → List α → Option σ
  | s, [] => some s
  | s, a :: as => (step s a).bind fun s' => runSteps step s' as

/-- Every step of a run is taken in a state that meets `P`. -/
def Along (step : σ → α → Option σ) (P : σ → α → Prop) : σ → List α → Prop
  | _, [] => True
  | s, a :: as => P s a ∧ match step s a with
    | some s' => Along step P s' as
    | none => True

namespace Along

variable {step : σ → α → Option σ} {P Q : σ → α → Prop}

theorem cons_iff {s : σ} {a : α} {as : List α} :
    Along step P s (a :: as) ↔ P s a ∧ ∀ s', step s a = some s' → Along step P s' as := by
  rw [Along]
  refine and_congr_right fun _ => ?_
  cases step s a <;> simp

instance decidable [∀ s a, Decidable (P s a)] : ∀ s as, Decidable (Along step P s as)
  | _, [] => .isTrue trivial
  | s, a :: as =>
    @instDecidableAnd _ _ _ <| match step s a with
      | some s' => decidable s' as
      | none => .isTrue trivial

theorem initial : ∀ {as bs : List α} {s : σ}, as <+: bs → Along step P s bs →
    Along step P s as := by
  intro as
  induction as with
  | nil => intro bs s _ _; trivial
  | cons a as ih =>
    intro bs s hpre hrun
    obtain ⟨rest, rfl⟩ := hpre
    obtain ⟨hfirst, hlater⟩ := cons_iff.mp hrun
    exact cons_iff.mpr ⟨hfirst, fun s' hs' => ih (List.prefix_append as rest) (hlater s' hs')⟩

theorem and : ∀ {as : List α} {s : σ}, Along step P s as → Along step Q s as →
    Along step (fun s a => P s a ∧ Q s a) s as := by
  intro as
  induction as with
  | nil => intro s _ _; trivial
  | cons a as ih =>
    intro s hP hQ
    obtain ⟨hP, hPs⟩ := cons_iff.mp hP
    obtain ⟨hQ, hQs⟩ := cons_iff.mp hQ
    exact cons_iff.mpr ⟨⟨hP, hQ⟩, fun s' hs' => ih (hPs s' hs') (hQs s' hs')⟩

theorem of_forall : ∀ {as : List α} (s : σ), (∀ a ∈ as, ∀ s, P s a) → Along step P s as := by
  intro as
  induction as with
  | nil => intro s _; trivial
  | cons a as ih =>
    intro s h
    exact cons_iff.mpr ⟨h a List.mem_cons_self s,
      fun s' _ => ih s' fun b hb => h b (List.mem_cons_of_mem _ hb)⟩

theorem append : ∀ {as bs : List α} {s : σ}, Along step P s as →
    (∀ s', runSteps step s as = some s' → Along step P s' bs) → Along step P s (as ++ bs) := by
  intro as
  induction as with
  | nil => intro bs s _ h; exact h s rfl
  | cons a as ih =>
    intro bs s hrun h
    obtain ⟨hfirst, hlater⟩ := cons_iff.mp hrun
    refine cons_iff.mpr ⟨hfirst, fun s₁ hone => ih (hlater s₁ hone) fun s' hs' => h s' ?_⟩
    rw [runSteps, hone]
    exact hs'

theorem last : ∀ {as : List α} {a : α} {s s' : σ}, Along step P s (as ++ [a]) →
    runSteps step s as = some s' → P s' a := by
  intro as
  induction as with
  | nil =>
    intro a s s' h hrun
    cases hrun
    exact (cons_iff.mp h).1
  | cons b as ih =>
    intro a s s' h hrun
    obtain ⟨s₁, hone, hrest⟩ := Option.bind_eq_some_iff.mp hrun
    exact ih ((cons_iff.mp h).2 s₁ hone) hrest

end Along

theorem runSteps_append {step : σ → α → Option σ} : ∀ (as bs : List α) (s : σ),
    runSteps step s (as ++ bs) = (runSteps step s as).bind fun s' => runSteps step s' bs := by
  intro as
  induction as with
  | nil => intro bs s; rfl
  | cons a as ih =>
    intro bs s
    rw [List.cons_append, runSteps, runSteps]
    cases step s a with
    | none => rfl
    | some s₁ => exact ih bs s₁

theorem runSteps_concat {step : σ → α → Option σ} (as : List α) (a : α) (s : σ) :
    runSteps step s (as ++ [a]) = (runSteps step s as).bind fun s' => step s' a := by
  rw [runSteps_append]
  refine Option.bind_congr fun s' _ => ?_
  rw [runSteps]
  cases step s' a <;> rfl

/-- **The invariant rule for runs.** The invariant is about the steps taken so far and the state
they led to. -/
theorem Along.run_history {step : σ → α → Option σ} {P : σ → α → Prop} {I : List α → σ → Prop}
    {as : List α} {s : σ} (hs : I [] s) (hrun : Along step P s as)
    (hstep : ∀ pre s a, pre ++ [a] <+: as → I pre s → P s a →
      ∃ s', step s a = some s' ∧ I (pre ++ [a]) s') :
    ∃ s', runSteps step s as = some s' ∧ I as s' := by
  induction as using List.reverseRecOn with
  | nil => exact ⟨s, rfl, hs⟩
  | append_singleton as a ih =>
    obtain ⟨s₁, hfirst, hs₁⟩ := ih (hrun.initial (List.prefix_append as [a]))
      fun pre s b hpre => hstep pre s b (hpre.trans (List.prefix_append as [a]))
    obtain ⟨s', hone, hs'⟩ := hstep as s₁ a (List.prefix_refl _) hs₁ (hrun.last hfirst)
    exact ⟨s', by rw [runSteps_concat, hfirst, Option.bind_some, hone], hs'⟩

theorem Along.run_inv {step : σ → α → Option σ} {P : σ → α → Prop} {I : σ → Prop}
    (hstep : ∀ s a, I s → P s a → ∃ s', step s a = some s' ∧ I s') {as : List α} {s : σ} (hs : I s)
    (hrun : Along step P s as) : ∃ s', runSteps step s as = some s' ∧ I s' :=
  hrun.run_history (I := fun _ => I) hs fun _ s a _ => hstep s a

/-- Two things that say the same of a step under an invariant say the same of a run. -/
theorem Along.congr_inv {step : σ → α → Option σ} {P Q R : σ → α → Prop} {I : σ → Prop}
    (hstep : ∀ s a, I s → P s a → ∃ s', step s a = some s' ∧ I s')
    (hiff : ∀ s a, I s → P s a → (Q s a ↔ R s a)) : ∀ {as : List α} {s : σ}, I s →
    Along step P s as → (Along step Q s as ↔ Along step R s as) := by
  intro as
  induction as with
  | nil => intro s _ _; exact Iff.rfl
  | cons a as ih =>
    intro s hs hrun
    obtain ⟨hP, hlater⟩ := cons_iff.mp hrun
    obtain ⟨s₁, hone, hs₁⟩ := hstep s a hs hP
    have hrest := ih hs₁ (hlater s₁ hone)
    rw [cons_iff, cons_iff, hiff s a hs hP, hone]
    simpa using fun _ => hrest

/-- The rule for runs whose steps need not have a result: a step that has one keeps the invariant. -/
theorem runSteps_history {step : σ → α → Option σ} {I : List α → σ → Prop} {as : List α} {s s' : σ}
    (hs : I [] s) (hrun : runSteps step s as = some s')
    (hstep : ∀ pre s a s', pre ++ [a] <+: as → I pre s → step s a = some s' → I (pre ++ [a]) s') :
    I as s' := by
  induction as using List.reverseRecOn generalizing s' with
  | nil =>
    cases hrun
    exact hs
  | append_singleton as a ih =>
    rw [runSteps_concat] at hrun
    obtain ⟨s₁, hfirst, hone⟩ := Option.bind_eq_some_iff.mp hrun
    refine hstep as s₁ a s' (List.prefix_refl _) (ih hfirst ?_) hone
    exact fun pre s b s' hpre => hstep pre s b s' (hpre.trans (List.prefix_append as [a]))

theorem runSteps_inv {step : σ → α → Option σ} {I : σ → Prop}
    (hstep : ∀ s a s', I s → step s a = some s' → I s') {as : List α} {s s' : σ} (hs : I s)
    (hrun : runSteps step s as = some s') : I s' :=
  runSteps_history (I := fun _ => I) hs hrun fun _ s a s' _ => hstep s a s'

/-- The rule for runs whose steps meet a condition and need not have a result. -/
theorem Along.runSteps_inv {step : σ → α → Option σ} {P : σ → α → Prop} {I : σ → Prop}
    (hstep : ∀ s a s', I s → P s a → step s a = some s' → I s') : ∀ {as : List α} {s s' : σ}, I s →
    Along step P s as → runSteps step s as = some s' → I s' := by
  intro as
  induction as with
  | nil =>
    intro s s' hs _ hrun
    cases hrun
    exact hs
  | cons a as ih =>
    intro s s' hs halong hrun
    obtain ⟨hP, hrest⟩ := cons_iff.mp halong
    obtain ⟨s₁, hone, hlater⟩ := Option.bind_eq_some_iff.mp hrun
    exact ih (hstep s a s₁ hs hP hone) (hrest s₁ hone) hlater

/-- Two things that say the same of a step under an invariant say the same of a run, if the first of
them keeps the invariant. -/
theorem Along.iff_of_inv {step : σ → α → Option σ} {Q R : σ → α → Prop} {I : σ → Prop}
    (hiff : ∀ s a s', I s → step s a = some s' → (Q s a ↔ R s a))
    (hkeep : ∀ s a s', I s → Q s a → step s a = some s' → I s') : ∀ {as : List α} {s s' : σ}, I s →
    runSteps step s as = some s' → (Along step Q s as ↔ Along step R s as) := by
  intro as
  induction as with
  | nil => intro s s' _ _; exact Iff.rfl
  | cons a as ih =>
    intro s s' hs hrun
    obtain ⟨s₁, hone, hrest⟩ := Option.bind_eq_some_iff.mp hrun
    rw [cons_iff, cons_iff, ← hiff s a s₁ hs hone, hone]
    refine and_congr_right fun hQ => ?_
    simpa using ih (hkeep s a s₁ hs hQ hone) hrest

/-- The rule for what a step can lose, and none can bring back: it is there at the end if it was there
to begin with and no step lost it. -/
theorem Along.lost_iff {step : σ → α → Option σ} {P : σ → α → Prop} {I G : σ → Prop}
    (hkeep : ∀ s a s', I s → step s a = some s' → I s')
    (hlose : ∀ s a s', I s → step s a = some s' → (G s' ↔ G s ∧ P s a)) : ∀ {as : List α} {s s' : σ},
    I s → runSteps step s as = some s' → (G s' ↔ G s ∧ Along step P s as) := by
  intro as
  induction as with
  | nil =>
    intro s s' _ hrun
    cases hrun
    exact (and_iff_left trivial).symm
  | cons a as ih =>
    intro s s' hs hrun
    obtain ⟨s₁, hone, hrest⟩ := Option.bind_eq_some_iff.mp hrun
    rw [ih (hkeep s a s₁ hs hone) hrest, hlose s a s₁ hs hone, cons_iff, hone, and_assoc]
    simp

/-- A condition that is not about the state. -/
theorem Along.const_iff {step : σ → α → Option σ} {P : α → Prop} : ∀ {as : List α} {s s' : σ},
    runSteps step s as = some s' → (Along step (fun _ => P) s as ↔ ∀ a ∈ as, P a) := by
  intro as
  induction as with
  | nil =>
    intro s s' _
    exact iff_of_true trivial fun _ => nofun
  | cons a as ih =>
    intro s s' hrun
    obtain ⟨s₁, hone, hrest⟩ := Option.bind_eq_some_iff.mp hrun
    rw [cons_iff, hone, List.forall_mem_cons, ← ih hrest]
    simp

/-- The rule for loops that may end without a result. -/
theorem foldlM_inv {f : σ → α → Option σ} {I : σ → Prop} {P : α → Prop}
    (hstep : ∀ s a s', P a → I s → f s a = some s' → I s') :
    ∀ {as : List α} {s s' : σ}, (∀ a ∈ as, P a) → I s → as.foldlM f s = some s' → I s' := by
  intro as
  induction as with
  | nil =>
    intro s s' _ hs hrun
    cases hrun
    exact hs
  | cons a as ih =>
    intro s s' hP hs hrun
    rw [List.foldlM_cons] at hrun
    obtain ⟨s₁, hone, hrest⟩ := Option.bind_eq_some_iff.mp hrun
    exact ih (fun b hb => hP b (List.mem_cons_of_mem _ hb))
      (hstep s a s₁ (hP a List.mem_cons_self) hs hone) hrest

/-- **The rule for loops that collect**: each turn keeps `I`, has its own element done, and undoes
none. -/
theorem foldlM_collect {f : σ → α → Option σ} {I : σ → Prop} {D : σ → α → Prop} {P : α → Prop}
    (hstep : ∀ s a, I s → P a → ∃ s', f s a = some s' ∧ I s' ∧ D s' a ∧ ∀ b, D s b → D s' b) :
    ∀ {as : List α} {s : σ}, I s → (∀ a ∈ as, P a) →
      ∃ s', as.foldlM f s = some s' ∧ I s' ∧ (∀ a ∈ as, D s' a) ∧ ∀ b, D s b → D s' b := by
  intro as
  induction as with
  | nil =>
    intro s hs _
    exact ⟨s, rfl, hs, by simp, fun _ hb => hb⟩
  | cons a as ih =>
    intro s hs hP
    obtain ⟨s₁, hone, hs₁, hdone, hkeep⟩ := hstep s a hs (hP a List.mem_cons_self)
    obtain ⟨s', hrest, hs', hall, hkeep'⟩ := ih hs₁ fun b hb => hP b (List.mem_cons_of_mem _ hb)
    refine ⟨s', ?_, hs', fun b hb => ?_, fun b hb => hkeep' b (hkeep b hb)⟩
    · rw [List.foldlM_cons, hone]
      exact hrest
    · rcases List.mem_cons.mp hb with rfl | hb
      · exact hkeep' b hdone
      · exact hall b hb

/-! ## Loops that make a list -/

section Lists

variable {β : Type}

/-- Each turn has a result. -/
theorem exists_mapM {f : α → Option β} {P : α → β → Prop} : ∀ {as : List α},
    (∀ a ∈ as, ∃ b, f a = some b ∧ P a b) →
    ∃ bs, as.mapM f = some bs ∧ List.Forall₂ (fun a b => f a = some b ∧ P a b) as bs := by
  intro as
  induction as with
  | nil => intro _; exact ⟨[], rfl, .nil⟩
  | cons a as ih =>
    intro h
    obtain ⟨b, hb, hP⟩ := h a List.mem_cons_self
    obtain ⟨bs, hbs, hall⟩ := ih fun a' ha' => h a' (List.mem_cons_of_mem _ ha')
    refine ⟨b :: bs, ?_, .cons ⟨hb, hP⟩ hall⟩
    rw [List.mapM_cons, hb, hbs]
    rfl

/-- The results of the turns. -/
theorem forall₂_of_mapM {f : α → Option β} : ∀ {as : List α} {bs : List β}, as.mapM f = some bs →
    List.Forall₂ (fun a b => f a = some b) as bs := by
  intro as
  induction as with
  | nil =>
    intro bs h
    cases h
    exact .nil
  | cons a as ih =>
    intro bs h
    rw [List.mapM_cons] at h
    obtain ⟨b, hb, hrest⟩ := Option.bind_eq_some_iff.mp h
    obtain ⟨bs', hbs, hres⟩ := Option.bind_eq_some_iff.mp hrest
    cases hres
    exact .cons hb (ih hbs)

theorem exists_of_mem_right {R : α → β → Prop} {as : List α} {bs : List β}
    (h : List.Forall₂ R as bs) {b : β} (hb : b ∈ bs) : ∃ a ∈ as, R a b := by
  induction h with
  | nil => cases hb
  | cons hR _ ih =>
    rcases List.mem_cons.mp hb with rfl | hb
    · exact ⟨_, List.mem_cons_self, hR⟩
    · obtain ⟨a, ha, hR⟩ := ih hb
      exact ⟨a, List.mem_cons_of_mem _ ha, hR⟩

theorem exists_of_mem_left {R : α → β → Prop} {as : List α} {bs : List β}
    (h : List.Forall₂ R as bs) {a : α} (ha : a ∈ as) : ∃ b ∈ bs, R a b :=
  exists_of_mem_right h.flip ha

theorem length_flatMap_le {f g : α → List β} : ∀ {as : List α},
    (∀ a ∈ as, (f a).length ≤ (g a).length) → (as.flatMap f).length ≤ (as.flatMap g).length := by
  intro as
  induction as with
  | nil => intro _; exact Nat.le_refl _
  | cons a as ih =>
    intro hle
    rw [List.flatMap_cons, List.flatMap_cons, List.length_append, List.length_append]
    exact Nat.add_le_add (hle a List.mem_cons_self) (ih fun b hb => hle b (List.mem_cons_of_mem _ hb))

/-- Lists put together from pieces, none of them longer, are equal only if the pieces are. -/
theorem flatMap_eq_flatMap_iff {f g : α → List β} : ∀ {as : List α},
    (∀ a ∈ as, (f a).length ≤ (g a).length) →
    (as.flatMap f = as.flatMap g ↔ ∀ a ∈ as, f a = g a) := by
  intro as
  induction as with
  | nil => simp
  | cons a as ih =>
    intro hle
    have hrest := fun b hb => hle b (List.mem_cons_of_mem a hb)
    rw [List.flatMap_cons, List.flatMap_cons, List.forall_mem_cons, ← ih hrest]
    constructor
    · intro heq
      have hlen := congrArg List.length heq
      have hfirst := hle a List.mem_cons_self
      have htail := length_flatMap_le hrest
      rw [List.length_append, List.length_append] at hlen
      exact List.append_inj heq (by omega)
    · rintro ⟨hfirst, htail⟩
      rw [hfirst, htail]

end Lists

end CxxLab.Lib
