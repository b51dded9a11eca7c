import CxxLab.Lib.Run
import CxxLab.Lib.Tally
import CxxLab.NewMetaLab.Resources

/-!
# `new_meta_lab/Proxy.h` — scoped handles

A `ScopedResource` takes a reference where it is constructed with one, and drops it where it is
destroyed. It has no copy constructor and no assignment of its own, and as it has a destructor it has
no moves either: the compiler's copies take over `scoped_` and count nothing. A copy of a scoped
handle then drops a reference that was never taken, and an assignment forgets one.

Handles are the variables of a program. What callbacks do is not looked at here, only whose are run.
-/

set_option autoImplicit false

namespace CxxLab.NewMetaLab

open CxxLab.Lib

/-- A handle: `res_` and `scoped_`. -/
structure ScopedResource where
  res : Option Nat
  isScoped : Bool
  deriving DecidableEq

/-- The resource that the destructor will drop a reference on. -/
def ScopedResource.counted (h : ScopedResource) : Option Nat := if h.isScoped then h.res else none

/-- Resources and the handles on them. -/
structure Handles (α : Type) where
  resources : Nat → Counted α
  /-- The handles that are alive. -/
  vars : Nat → Option ScopedResource
  /-- The resources whose callbacks were run, in order. -/
  ran : List Nat

namespace Handles

variable {α : Type}

/-- No handles yet. -/
def start (resources : Nat → Counted α) : Handles α := ⟨resources, fun _ => none, []⟩

/-- `Ref` of a resource; its count is an `int`. -/
def ref (S : Handles α) (r : Nat) : Option (Handles α) :=
  if (S.resources r).refcnt < intMax then
    some { S with resources := Function.update S.resources r (S.resources r).ref }
  else none

/-- `UnRef` of a resource. -/
def unRef (S : Handles α) (r : Nat) : Handles α :=
  let (o, n) := (S.resources r).unRef
  { S with resources := Function.update S.resources r o, ran := S.ran ++ List.replicate n r }

/-- A new variable. -/
def declare (S : Handles α) (x : Nat) (h : ScopedResource) : Option (Handles α) :=
  match S.vars x with
  | none => some { S with vars := Function.update S.vars x (some h) }
  | some _ => none

inductive Op where
  /-- `ScopedResource()`. -/
  | empty (x : Nat)
  /-- `ScopedResource(res, scoped)`. -/
  | create (x : Nat) (res : Option Nat) (isScoped : Bool)
  /-- The copy constructor. -/
  | copy (x y : Nat)
  /-- The copy assignment. -/
  | assign (x y : Nat)
  /-- `~ScopedResource()`. -/
  | destroy (x : Nat)

def step (S : Handles α) : Op → Option (Handles α)
  | .empty x => S.declare x ⟨none, false⟩
  | .create x res isScoped =>
    if isScoped then do
      let r ← res
      (← S.ref r).declare x ⟨some r, true⟩
    else S.declare x ⟨res, false⟩
  | .copy x y => do
    S.declare x (← S.vars y)
  | .assign x y => do
    let h ← S.vars y
    let _ ← S.vars x
    return { S with vars := Function.update S.vars x (some h) }
  | .destroy x => do
    let h ← S.vars x
    let S := { S with vars := Function.update S.vars x none }
    if h.isScoped then
      let r ← h.res
      return S.unRef r
    else return S

/-! ## Balance -/

/-- The place has a scoped handle on the resource. -/
def Counts (r : Nat) (o : Option ScopedResource) : Prop := o.bind ScopedResource.counted = some r

/-- **Every count** is what it was without handles, and one for each scoped handle. -/
def Balanced (base : Nat → Counted α) (S : Handles α) : Prop :=
  ∀ r, ((S.resources r).refcnt : ℕ∞) = (base r).refcnt + tally (Counts r) S.vars

/-- **Callbacks run** when the last scoped handle is destroyed. -/
def OnLast (S : Handles α) (a : Op) (S' : Handles α) : Prop :=
  ∀ r, S.ran.count r < S'.ran.count r →
    ∃ x, a = .destroy x ∧ Counts r (S.vars x) ∧ ∀ y, ¬ Counts r (S'.vars y)

/-- The step keeps the balance, and runs callbacks with the last handle.

The count of a resource is what it began with and one for each handle that counts for it. Callbacks
may run in a step only if it destroys a handle that counts, and no other is left for the same
resource. -/
def Balances (base : Nat → Counted α) (S : Handles α) (a : Op) : Prop :=
  ∀ S', step S a = some S' → Balanced base S' ∧ OnLast S a S'

/-- What is copied is not scoped; what is assigned counts as what it overwrites. -/
def Matched (S : Handles α) : Op → Prop
  | .copy _ y => (S.vars y).bind ScopedResource.counted = none
  | .assign x y =>
    (S.vars x).bind ScopedResource.counted = (S.vars y).bind ScopedResource.counted
  | _ => True

theorem Balanced.of_start (resources : Nat → Counted α) : Balanced resources (start resources) := by
  intro r
  have hnone : tally (Counts r) (start resources).vars = 0 :=
    tally_eq_zero_iff.mpr fun x hx => by cases hx
  rw [hnone, add_zero]
  rfl

theorem declare_eq {S S' : Handles α} {x : Nat} {h : ScopedResource}
    (hrun : S.declare x h = some S') :
    S.vars x = none ∧ S' = { S with vars := Function.update S.vars x (some h) } := by
  unfold declare at hrun
  split at hrun
  · rename_i hx
    cases hrun
    exact ⟨hx, rfl⟩
  · cases hrun

theorem Balanced.update {base : Nat → Counted α} {S : Handles α} (h : Balanced base S) {x : Nat}
    {o : Option ScopedResource}
    (ho : (S.vars x).bind ScopedResource.counted = o.bind ScopedResource.counted) :
    Balanced base { S with vars := Function.update S.vars x o } := by
  intro r
  have hsame : tally (Counts r) (Function.update S.vars x o) = tally (Counts r) S.vars :=
    tally_update_of_iff (by rw [Counts, Counts, ho])
  exact (h r).trans (by rw [← hsame])

theorem ne_add_succ {n b : Nat} {t : ℕ∞} (h : (n : ℕ∞) = b + t) : (n : ℕ∞) ≠ b + (t + 1) := by
  rw [← add_assoc, ← h]
  exact_mod_cast Nat.ne_of_lt (Nat.lt_succ_self n)

/-- A variable that changes and counts otherwise spoils the balance. -/
theorem Balanced.not_update {base : Nat → Counted α} {S : Handles α} (h : Balanced base S) {x : Nat}
    {o : Option ScopedResource}
    (ho : (S.vars x).bind ScopedResource.counted ≠ o.bind ScopedResource.counted) :
    ¬ Balanced base { S with vars := Function.update S.vars x o } := by
  intro h'
  cases hold : (S.vars x).bind ScopedResource.counted with
  | some r =>
    have hnew : ¬ Counts r o := fun hr => ho (hold.trans hr.symm)
    have hsub : tally (Counts r) (Function.update S.vars x o) + 1 = tally (Counts r) S.vars :=
      tally_update_sub hold hnew
    exact ne_add_succ (h' r) (hsub ▸ h r)
  | none =>
    obtain ⟨r, hr⟩ : ∃ r, Counts r o := by
      rw [hold] at ho
      exact Option.ne_none_iff_exists'.mp ho.symm
    have hnone : ¬ Counts r (S.vars x) := fun hx => by cases hold.symm.trans hx
    have hadd : tally (Counts r) (Function.update S.vars x o) = tally (Counts r) S.vars + 1 :=
      tally_update_add hnone hr
    exact ne_add_succ (h r) (hadd ▸ h' r)

theorem Balanced.update_iff {base : Nat → Counted α} {S : Handles α} (h : Balanced base S) {x : Nat}
    {o : Option ScopedResource} : Balanced base { S with vars := Function.update S.vars x o } ↔
      (S.vars x).bind ScopedResource.counted = o.bind ScopedResource.counted :=
  ⟨fun hbal => by_contra fun hne => h.not_update hne hbal, h.update⟩

/-- A handle that takes its reference. -/
theorem Balanced.create {base : Nat → Counted α} {S : Handles α} (h : Balanced base S) {x r : Nat}
    (hx : S.vars x = none) :
    Balanced base ⟨Function.update S.resources r (S.resources r).ref,
      Function.update S.vars x (some ⟨some r, true⟩), S.ran⟩ := by
  intro r'
  have hnone : ∀ r', ¬ Counts r' (S.vars x) := fun r' hr' => by
    rw [Counts, hx] at hr'
    cases hr'
  by_cases heq : r' = r
  · subst heq
    have hadd : tally (Counts r') (Function.update S.vars x (some ⟨some r', true⟩)) =
        tally (Counts r') S.vars + 1 := tally_update_add (hnone r') rfl
    dsimp only
    rw [Function.update_self, hadd, ← add_assoc, ← h r']
    rfl
  · have hsame : tally (Counts r') (Function.update S.vars x (some ⟨some r, true⟩)) =
        tally (Counts r') S.vars :=
      tally_update_of_iff (iff_of_false (hnone r') fun hr' => heq (Option.some_inj.mp hr').symm)
    dsimp only
    rw [Function.update_of_ne heq, hsame]
    exact h r'

theorem unRef_of_succ {S : Handles α} {r n : Nat} (hn : (S.resources r).refcnt = n + 1) :
    S.unRef r = ⟨Function.update S.resources r { S.resources r with refcnt := n }, S.vars,
      S.ran ++ List.replicate (if n = 0 then (S.resources r).callbacks else 0) r⟩ := by
  simp [unRef, Counted.unRef, hn]

/-- **A scoped handle that is destroyed** drops its reference, and callbacks run if it was the last. -/
theorem Balanced.destroy {base : Nat → Counted α} {S : Handles α} (h : Balanced base S) {x r : Nat}
    (hx : Counts r (S.vars x)) :
    Balanced base ({ S with vars := Function.update S.vars x none }.unRef r) ∧
    OnLast S (.destroy x) ({ S with vars := Function.update S.vars x none }.unRef r) := by
  have hsub : tally (Counts r) (Function.update S.vars x none) + 1 = tally (Counts r) S.vars :=
    tally_update_sub hx fun hr => by cases hr
  have hcount := h r
  rw [← hsub, ← add_assoc] at hcount
  obtain ⟨n, hn, hleft⟩ := exists_pred hcount
  rw [unRef_of_succ (S := { S with vars := Function.update S.vars x none }) hn]
  refine ⟨fun r' => ?_, fun r' hran => ?_⟩
  · dsimp only
    by_cases heq : r' = r
    · subst heq
      rw [Function.update_self]
      exact hleft
    · have hsame : tally (Counts r') (Function.update S.vars x none) = tally (Counts r') S.vars :=
        tally_update_of_iff (iff_of_false
          (fun hr' => heq (Option.some_inj.mp (hr'.symm.trans hx))) fun hr' => by cases hr')
      rw [Function.update_of_ne heq, hsame]
      exact h r'
  · -- What was run is in the log of this resource, and nothing was left on it.
    dsimp only at hran ⊢
    rw [List.count_append, List.count_replicate] at hran
    obtain ⟨rfl, rfl⟩ : r = r' ∧ n = 0 := by
      split at hran
      · rename_i heq
        split at hran
        · exact ⟨beq_iff_eq.mp heq, ‹_›⟩
        · exact absurd hran (Nat.lt_irrefl _)
      · exact absurd hran (Nat.lt_irrefl _)
    rw [Nat.cast_zero, eq_comm, add_eq_zero] at hleft
    exact ⟨x, rfl, hx, tally_eq_zero_iff.mp hleft.2⟩

/-- What one step does to the balance. -/
theorem step_iff {base : Nat → Counted α} {S S' : Handles α} {a : Op} (h : Balanced base S)
    (hstep : step S a = some S') : Balances base S a ↔ Matched S a := by
  have hone : Balances base S a ↔ Balanced base S' ∧ OnLast S a S' :=
    ⟨fun hbal => hbal S' hstep, fun hbal S'' hS'' => by
      cases hstep.symm.trans hS''
      exact hbal⟩
  have hquiet : S'.ran = S.ran → OnLast S a S' := fun hran r hr => by
    rw [hran] at hr
    exact absurd hr (Nat.lt_irrefl _)
  rw [hone]
  cases a with
  | empty x =>
    obtain ⟨hx, rfl⟩ := declare_eq hstep
    exact iff_of_true ⟨h.update (by rw [hx]; rfl), hquiet rfl⟩ trivial
  | create x res isScoped =>
    simp only [step] at hstep
    split at hstep
    · obtain ⟨r, -, hcreate⟩ := Option.bind_eq_some_iff.mp hstep
      obtain ⟨S₁, href, hcreate⟩ := Option.bind_eq_some_iff.mp hcreate
      unfold Handles.ref at href
      split at href
      · cases href
        obtain ⟨hx, rfl⟩ := declare_eq hcreate
        exact iff_of_true ⟨h.create hx, hquiet rfl⟩ trivial
      · cases href
    · obtain ⟨hx, rfl⟩ := declare_eq hstep
      exact iff_of_true ⟨h.update (by rw [hx]; rfl), hquiet rfl⟩ trivial
  | copy x y =>
    obtain ⟨hdl, hy, hstep⟩ := Option.bind_eq_some_iff.mp hstep
    obtain ⟨hx, rfl⟩ := declare_eq hstep
    show _ ↔ (S.vars y).bind ScopedResource.counted = none
    rw [and_iff_left (hquiet rfl), h.update_iff, hx, hy]
    exact eq_comm
  | assign x y =>
    obtain ⟨hdl, hy, hstep⟩ := Option.bind_eq_some_iff.mp hstep
    obtain ⟨_, -, heq⟩ := Option.bind_eq_some_iff.mp hstep
    cases heq
    show _ ↔ (S.vars x).bind ScopedResource.counted = (S.vars y).bind ScopedResource.counted
    rw [and_iff_left (hquiet rfl), h.update_iff, hy]
  | destroy x =>
    obtain ⟨hdl, hx, hstep⟩ := Option.bind_eq_some_iff.mp hstep
    dsimp only at hstep
    split at hstep
    · rename_i hscoped
      obtain ⟨r, hr, heq⟩ := Option.bind_eq_some_iff.mp hstep
      cases heq
      refine iff_of_true (h.destroy ?_) trivial
      rw [Counts, hx, Option.bind_some, ScopedResource.counted, if_pos hscoped, hr]
    · rename_i hscoped
      cases hstep
      refine iff_of_true ⟨h.update ?_, hquiet rfl⟩ trivial
      rw [hx, Option.bind_some, ScopedResource.counted, if_neg hscoped]
      rfl

/-- **Handles keep exact counts if and only if** no scoped handle is ever copied, and an assignment
is between handles that count alike.

A scoped handle counts for its resource while it lives, and calls `Ref` and `UnRef` for it. But its
copy constructor and its assignment are those of the compiler, which copy the pointer and the flag
and count nothing. The condition is on the step before which the counts are still right, so it finds
the first one that goes wrong. -/
theorem balances_iff {resources : Nat → Counted α} {ops : List Op} {S : Handles α}
    (hrun : runSteps step (start resources) ops = some S) :
    Along step (Balances resources) (start resources) ops ↔
      Along step Matched (start resources) ops :=
  Along.iff_of_inv (I := Balanced resources) (fun _ _ _ h hstep => step_iff h hstep)
    (fun _ _ _ _ hbal hstep => (hbal _ hstep).1) (Balanced.of_start resources) hrun

/-- A resource nobody has counted yet, with one callback. -/
def fresh (_ : Nat) : Counted Unit := ⟨(), 0, 1⟩

theorem balances_iff_plain : ∃ S, runSteps step (start fresh)
      [.create 0 (some 0) true, .create 1 (some 0) false, .copy 2 1, .assign 1 2, .destroy 0] =
        some S ∧
    (Along step (Balances fresh) (start fresh)
        [.create 0 (some 0) true, .create 1 (some 0) false, .copy 2 1, .assign 1 2, .destroy 0] ↔
      Along step Matched (start fresh)
        [.create 0 (some 0) true, .create 1 (some 0) false, .copy 2 1, .assign 1 2, .destroy 0]) :=
  ⟨_, rfl, balances_iff rfl⟩

/-- A copy goes, and the callbacks are run with the other handle still there. -/
theorem not_balances : ∃ S, runSteps step (start fresh)
      [.create 0 (some 0) true, .copy 1 0, .destroy 1] = some S ∧
    S.vars 0 = some ⟨some 0, true⟩ ∧ (S.resources 0).refcnt = 0 ∧ S.ran = [0] ∧
    ¬ Along step (Balances fresh) (start fresh)
      [.create 0 (some 0) true, .copy 1 0, .destroy 1] := by
  refine ⟨_, rfl, rfl, rfl, rfl, fun h => ?_⟩
  obtain ⟨-, hlast⟩ := @Along.last _ _ step _ [.create 0 (some 0) true, .copy 1 0] (.destroy 1) _ _ h
    rfl _ rfl
  obtain ⟨x, -, -, hnone⟩ := hlast 0 (by decide +kernel)
  exact hnone 0 rfl

end Handles

end CxxLab.NewMetaLab
