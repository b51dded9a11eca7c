import CxxLab.CkLab.Graph
import CxxLab.CkLab.Merge
import CxxLab.Lib.Walk

/-!
# `Pipe::ToString` — the lines of a pipe

There is a line for every source: from it the loop goes along first outputs to the processors they
are connected to, and puts down each one that is in no line yet. Whether a processor is in a line
has nothing to do with how long the loop goes on.

What ends it is how pipes are built. Only `AddTransform` connects anything: outputs of a pipe to the
inputs of a processor that is in no pipe yet. So there is one order of all processors, that of the
calls that brought them in, and along every connection it goes up (`World.Ordered`). It does not
matter which pipe has which of them: a program may go on with the pipes it has merged as well as with
the pipe they were merged into.
-/

set_option autoImplicit false

namespace CxxLab.CkLab

open CxxLab.Lib Exec

/-! ## Printing -/

/-- `IProcessor::ToString(true)`. -/
def Processor.alias (q : Processor) : String :=
  "[" ++ toString q.inputs.length ++ "," ++ toString q.outputs.length ++ "]"

/-- The next `current`: the processor behind the first output. -/
def Heap.follow (h : Heap) (current : Nat) : Option (Option Nat) :=
  match (h.procs current).outputs with
  | [] => some none
  | port :: _ =>
    if port.state.isNone then some none
    else do
      let r ← port.inputPort
      let inputPort ← h.input r
      if inputPort.state.isNone then return none
      return some r.proc

/-- `printed` and `line`. -/
structure Printer where
  printed : List Nat
  line : List Nat

/-- The body of the inner loop: `line` has the processor where the code has its text. -/
def Printer.visit (p : Printer) (current : Nat) : Printer :=
  if current ∈ p.printed then p else ⟨current :: p.printed, p.line ++ [current]⟩

/-- The loop over `sources`. -/
def printLines (h : Heap) (fuel : Nat) : List Nat → List Nat → Option (List (List Nat))
  | [], _ => some []
  | source :: sources, printed => do
    let p ← forWalk h.follow Printer.visit fuel ⟨printed, []⟩ (some source)
    let lines ← printLines h fuel sources p.printed
    return p.line :: lines

namespace Pipe

/-- The processors without inputs. -/
def sources (p : Pipe) (h : Heap) : List Nat :=
  p.processors.filter fun q => (h.procs q).inputs.length == 0

def lines (p : Pipe) (h : Heap) (fuel : Nat) : Option (List (List Nat)) :=
  printLines h fuel (p.sources h) []

/-- A line, with its number. -/
def lineText (h : Heap) (line : List Nat) (i : Nat) : String :=
  toString i ++ ") " ++ "-->".intercalate (line.map fun q => (h.procs q).alias)

/-- `Pipe::ToString`. -/
def toString (p : Pipe) (h : Heap) (fuel : Nat) : Option String := do
  let lines ← p.lines h fuel
  return "\n".intercalate (lines.mapIdx fun i line => lineText h line (i + 1))

end Pipe

example : (Pipe.mk [0, 1] [⟨1, 0⟩, ⟨1, 1⟩] 2).toString
    ⟨fun q => if q = 0 then ⟨[], [⟨some 0, some ⟨1, 0⟩⟩]⟩
      else ⟨[⟨some 0, some ⟨0, 0⟩⟩], [⟨none, none⟩, ⟨none, none⟩]⟩, 1⟩ 2 =
    some "1) [0,1]-->[1,2]" := by decide +kernel

/-! ## What is left in the vector -/

/-- `RemoveEmptyPipes`, on a vector of anything that has pipes. -/
def removeEmpty {α : Type} (pipe : α → Pipe) : List α → Option (List α)
  | [] => some []
  | [a] => if (pipe a).empty then none else some [a]
  | a :: a' :: as =>
    if (pipe a).empty then (removeEmpty pipe as).map (a' :: ·)
    else (removeEmpty pipe (a' :: as)).map (a :: ·)

theorem map_removeEmpty {α : Type} (pipe : α → Pipe) (as : List α) :
    (removeEmpty pipe as).map (List.map pipe) = removeEmptyPipes (as.map pipe) := by
  induction as using removeEmpty.induct pipe with
  | case1 => rfl
  | case2 a ha => simp [removeEmpty, removeEmptyPipes, ha]
  | case3 a ha => simp [removeEmpty, removeEmptyPipes, ha]
  | case4 a a' as ha ih =>
    simp only [removeEmpty, List.map_cons, removeEmptyPipes, if_pos ha, ← ih, Option.map_map]
    rfl
  | case5 a a' as ha ih =>
    rw [List.map_cons] at ih
    simp only [removeEmpty, List.map_cons, removeEmptyPipes, if_neg ha, ← ih, Option.map_map]
    rfl

/-- What is left was there. -/
theorem mem_of_mem_removeEmpty {α : Type} {pipe : α → Pipe} {as : List α} : ∀ {left : List α},
    removeEmpty pipe as = some left → ∀ a ∈ left, a ∈ as := by
  induction as using removeEmpty.induct pipe with
  | case1 =>
    intro left h
    cases h
    exact fun a ha => ha
  | case2 a ha =>
    intro left h
    rw [removeEmpty, if_pos ha] at h
    cases h
  | case3 a ha =>
    intro left h
    rw [removeEmpty, if_neg ha] at h
    cases h
    exact fun a ha => ha
  | case4 a a' as ha ih =>
    intro left h x hx
    rw [removeEmpty, if_pos ha] at h
    obtain ⟨rest, hrest, rfl⟩ := Option.map_eq_some_iff.mp h
    rcases List.mem_cons.mp hx with rfl | hx
    · simp
    · exact List.mem_cons_of_mem _ (List.mem_cons_of_mem _ (ih hrest x hx))
  | case5 a a' as ha ih =>
    intro left h x hx
    rw [removeEmpty, if_neg ha] at h
    obtain ⟨rest, hrest, rfl⟩ := Option.map_eq_some_iff.mp h
    rcases List.mem_cons.mp hx with rfl | hx
    · exact List.mem_cons_self
    · exact List.mem_cons_of_mem _ (ih hrest x hx)

/-- A pipe that was moved from. -/
def Pipe.moved (p : Pipe) : Pipe := ⟨[], [], p.maxParallelStreams⟩

namespace World

/-- `MergePipes`, with what it leaves in the vector: erased pipes are gone, one that was left alone
was moved from, and several are as they were. -/
def mergeInPlace (w : World) (is : List Nat) : Option World := do
  let ps ← is.mapM w.pipes
  let left ← removeEmpty Prod.snd (is.zip ps)
  let pipes := fun i => if i ∈ is then
      (left.lookup i).map fun p => if left.length = 1 then p.moved else p
    else w.pipes i
  match ← CkLab.mergePipes ps with
  | none => return { w with pipes := pipes }
  | some p => return { w with
      pipes := Function.update pipes w.nextPipe (some p)
      nextPipe := w.nextPipe + 1 }

/-- A call, where the merged pipes can be used after it. -/
def call (w : World) : PipeOp → Option World
  | .mergePipes is => w.mergeInPlace is
  | op => w.step op

/-- The processor of an `AddTransform` is fresh. -/
def FreshTransform (w : World) : PipeOp → Prop
  | .addTransform _ q => w.Unused q
  | _ => True

instance (w : World) : ∀ op, Decidable (w.FreshTransform op)
  | .addTransform _ q => inferInstanceAs (Decidable (w.Unused q))
  | .newPipe | .addSource _ _ | .mergePipes _ => .isTrue trivial

end World

/-! ## The order of the processors -/

/-- **What every call keeps**: every connection goes up in one order of all processors there are in
pipes. -/
structure World.Ordered (order : List Nat) (w : World) : Prop where
  fresh : ∀ i, w.nextPipe ≤ i → w.pipes i = none
  mem_iff : ∀ q, q ∈ order ↔ ∃ i p, w.pipes i = some p ∧ q ∈ p.processors
  outputPorts : ∀ i p, w.pipes i = some p → ∀ r ∈ p.outputPorts, r.proc ∈ order
  wired : w.heap.Wired
  later : ∀ out inp, w.heap.Connected out inp →
    out.proc ∈ order ∧ inp.proc ∈ order ∧ order.idxOf out.proc < order.idxOf inp.proc

theorem Heap.Connected.of_join {h : Heap} {out inp out' inp' : PortRef}
    (hc : (h.join out inp).Connected out' inp') :
    h.Connected out' inp' ∨ out' = out ∧ inp' = inp := by
  obtain ⟨st, hout, hinp⟩ := hc
  rw [output_join] at hout
  rw [input_join] at hinp
  by_cases hsame : out' = out
  · rw [if_pos hsame] at hout
    obtain ⟨_, -, heq⟩ := Option.map_eq_some_iff.mp hout
    cases heq
    exact .inr ⟨hsame, rfl⟩
  · rw [if_neg hsame] at hout
    by_cases hsame' : inp' = inp
    · rw [if_pos hsame'] at hinp
      obtain ⟨_, -, heq⟩ := Option.map_eq_some_iff.mp hinp
      cases heq
      exact absurd rfl hsame
    · rw [if_neg hsame'] at hinp
      exact .inl ⟨st, hout, hinp⟩

/-- **The pairing loop** connects outputs of the list to the transform, and nothing else. -/
theorem connectAll_ok {q : Nat} : ∀ {outs : List PortRef} {i : Nat} {s s' : PipeState},
    s.heap.Wired → exec (connectAll q outs i) s = (.ok (), s') →
    s'.pipe = s.pipe ∧ s'.heap.Wired ∧ ∀ out inp, s'.heap.Connected out inp →
      s.heap.Connected out inp ∨ out ∈ outs ∧ inp.proc = q := by
  intro outs
  induction outs with
  | nil =>
    intro i s s' hw h
    cases h
    exact ⟨rfl, hw, fun out inp hc => .inl hc⟩
  | cons out outs ih =>
    intro i s s' hw h
    rw [connectAll, exec_bind] at h
    split at h
    · rename_i s₁ hfirst
      obtain ⟨hout, hinp, rfl⟩ := connect_ok hfirst
      obtain ⟨hpipe, hw', hconnected⟩ := ih (hw.join hout hinp) h
      refine ⟨hpipe, hw', fun out' inp' hc => ?_⟩
      rcases hconnected out' inp' hc with hc | ⟨hmem, hproc⟩
      · rcases hc.of_join with hc | ⟨rfl, rfl⟩
        · exact .inl hc
        · exact .inr ⟨List.mem_cons_self, rfl⟩
      · exact .inr ⟨List.mem_cons_of_mem _ hmem, hproc⟩
    · cases h

theorem addTransform_ok {q : Nat} {s s' : PipeState} (hw : s.heap.Wired)
    (h : exec (addTransform q) s = (.ok (), s')) :
    s'.pipe.processors = s.pipe.processors ++ [q] ∧ (∀ r ∈ s'.pipe.outputPorts, r.proc = q) ∧
      s'.heap.Wired ∧ ∀ out inp, s'.heap.Connected out inp →
        s.heap.Connected out inp ∨ out ∈ s.pipe.outputPorts ∧ inp.proc = q := by
  rw [exec_addTransform] at h
  split at h
  · cases h
  split at h
  · cases h
  split at h
  · cases h
  rw [exec_bind] at h
  split at h
  · rename_i s₁ hloop
    obtain ⟨hpipe, hw', hconnected⟩ := connectAll_ok hw hloop
    cases h
    refine ⟨?_, fun r hr => (Heap.mem_openOutputs.mp hr).1, hw', hconnected⟩
    show s₁.pipe.processors ++ [q] = _
    rw [hpipe]
  · cases h

theorem addSource_ok {q : Nat} {s s' : PipeState} (h : exec (addSource q) s = (.ok (), s')) :
    s'.heap = s.heap ∧ s'.pipe.processors = s.pipe.processors ++ [q] ∧
      s'.pipe.outputPorts = s.pipe.outputPorts ++ [⟨q, 0⟩] := by
  rw [exec_addSource] at h
  split at h
  · cases h
  · split at h
    · cases h
    · cases h
      exact ⟨rfl, rfl, rfl⟩

/-- `AddSource` of a connected processor changes nothing. -/
theorem addSource_status_unchanged {q : Nat} {s s' : PipeState} {code : StatusCode} {msg : String}
    (h : exec (addSource q) s = (.error (.status code msg), s')) : s' = s := by
  rw [exec_addSource] at h
  split at h
  · cases h
  · split at h
    · exact (Prod.mk.inj h).2.symm
    · cases h

namespace World

/-- A call that comes back, with a status or without. -/
theorem onPipe_eq_some {w w' : World} {i : Nat} {op : PipeM Unit} (h : w.onPipe i op = some w') :
    ∃ p s', w.pipes i = some p ∧
      w' = { w with heap := s'.heap, pipes := Function.update w.pipes i (some s'.pipe) } ∧
      (exec op ⟨w.heap, p⟩ = (.ok (), s') ∨
        ∃ code msg, exec op ⟨w.heap, p⟩ = (.error (.status code msg), s')) := by
  obtain ⟨p, hp, h⟩ := Option.bind_eq_some_iff.mp h
  split at h
  · rename_i s' hrun
    cases h
    exact ⟨p, s', hp, rfl, .inl hrun⟩
  · rename_i code msg s' hrun
    cases h
    exact ⟨p, s', hp, rfl, .inr ⟨code, msg, hrun⟩⟩
  · cases h

theorem update_self {w : World} {i : Nat} {p : Pipe} (hp : w.pipes i = some p) :
    { w with pipes := Function.update w.pipes i (some p) } = w := by
  rw [← hp, Function.update_eq_self]

/-- The pipes have other processors and ports together, but there are the same. -/
structure Regrouped (w w' : World) : Prop where
  heap : w'.heap = w.heap
  fresh : ∀ i, w'.nextPipe ≤ i → w'.pipes i = none
  processors : ∀ i p', w'.pipes i = some p' → ∀ q ∈ p'.processors,
    ∃ j p, w.pipes j = some p ∧ q ∈ p.processors
  outputPorts : ∀ i p', w'.pipes i = some p' → ∀ r ∈ p'.outputPorts,
    ∃ j p, w.pipes j = some p ∧ r ∈ p.outputPorts
  kept : ∀ i p, w.pipes i = some p → ∀ q ∈ p.processors,
    ∃ j p', w'.pipes j = some p' ∧ q ∈ p'.processors

/-- **The pipes that were merged**: those that are left are pipes there were, every pipe is as it was
or moved from, and one with processors is left or was not merged. -/
theorem pipes_of_left {w : World} {is : List Nat} {ps : List Pipe} {left : List (Nat × Pipe)}
    {pipes : Nat → Option Pipe} (hall : List.Forall₂ (fun i p => w.pipes i = some p) is ps)
    (hleft : removeEmpty Prod.snd (is.zip ps) = some left)
    (hks : removeEmptyPipes ps = some (left.map Prod.snd))
    (hpipes : (fun i => if i ∈ is then
      (left.lookup i).map fun p => if left.length = 1 then p.moved else p else w.pipes i) = pipes) :
    (∀ p ∈ left.map Prod.snd, ∃ i, w.pipes i = some p) ∧
    (∀ i p', pipes i = some p' → ∃ p, w.pipes i = some p ∧ (p' = p ∨ p' = p.moved)) ∧
    ∀ i p, w.pipes i = some p → ∀ q ∈ p.processors,
      p ∈ left.map Prod.snd ∨ pipes i = some p := by
  have hwas : ∀ i p, (i, p) ∈ left → w.pipes i = some p := fun i p hmem =>
    (List.forall₂_iff_zip.mp hall).2 (mem_of_mem_removeEmpty hleft _ hmem)
  refine ⟨fun p hp => ?_, fun i p' hp' => ?_, fun i p hp q hq => ?_⟩
  · obtain ⟨⟨i, p'⟩, hmem, rfl⟩ := List.mem_map.mp hp
    exact ⟨i, hwas i p' hmem⟩
  · rw [← hpipes] at hp'
    dsimp only at hp'
    split at hp'
    · obtain ⟨p, hp, rfl⟩ := Option.map_eq_some_iff.mp hp'
      obtain ⟨before, after, hsplit, -⟩ := List.lookup_eq_some_iff.mp hp
      refine ⟨p, hwas i p (hsplit ▸ by simp), ?_⟩
      split
      · exact .inr rfl
      · exact .inl rfl
    · exact ⟨p', hp', .inl rfl⟩
  · by_cases hi : i ∈ is
    · -- It is not empty, and so it was not erased.
      obtain ⟨p', hp', hsame⟩ := exists_of_mem_left hall hi
      cases hp.symm.trans hsame
      have hmem : p ∈ ps.filter fun p => !p.empty :=
        List.mem_filter.mpr ⟨hp', by simpa [Pipe.empty] using List.ne_nil_of_mem hq⟩
      rw [← (left_of_removeEmptyPipes hks).filter] at hmem
      exact .inl (List.mem_of_mem_filter hmem)
    · rw [← hpipes]
      exact .inr ((if_neg hi).trans hp)

section Regroup

variable {w : World} (hfresh : ∀ i, w.nextPipe ≤ i → w.pipes i = none)
include hfresh

/-- A pipe made of others comes to the pipes. -/
theorem regrouped_update {pipes : Nat → Option Pipe} {p : Pipe}
    (hpipes : ∀ i p', pipes i = some p' → ∃ p₁, w.pipes i = some p₁ ∧ (p' = p₁ ∨ p' = p₁.moved))
    (hprocs : ∀ q ∈ p.processors, ∃ j p₁, w.pipes j = some p₁ ∧ q ∈ p₁.processors)
    (hports : ∀ r ∈ p.outputPorts, ∃ j p₁, w.pipes j = some p₁ ∧ r ∈ p₁.outputPorts)
    (hkept : ∀ i p₁, w.pipes i = some p₁ → ∀ q ∈ p₁.processors,
      q ∈ p.processors ∨ pipes i = some p₁) :
    Regrouped w { w with pipes := Function.update pipes w.nextPipe (some p),
                         nextPipe := w.nextPipe + 1 } := by
  have hat : ∀ i p', Function.update pipes w.nextPipe (some p) i = some p' →
      p' = p ∨ ∃ p₁, w.pipes i = some p₁ ∧ (p' = p₁ ∨ p' = p₁.moved) := by
    intro i p' hp'
    rw [Function.update_apply] at hp'
    split at hp'
    · exact .inl (Option.some_inj.mp hp').symm
    · exact .inr (hpipes i p' hp')
  refine ⟨rfl, fun i hi => ?_, fun i p' hp' q hq => ?_, fun i p' hp' r hr => ?_,
    fun i p₁ hp₁ q hq => ?_⟩
  · dsimp only at hi ⊢
    rw [Function.update_of_ne (by omega)]
    cases hp' : pipes i with
    | none => rfl
    | some p' =>
      obtain ⟨p₁, hp₁, -⟩ := hpipes i p' hp'
      rw [hfresh i (by omega)] at hp₁
      cases hp₁
  · rcases hat i p' hp' with rfl | ⟨p₁, hp₁, rfl | rfl⟩
    · exact hprocs q hq
    · exact ⟨i, p', hp₁, hq⟩
    · cases hq
  · rcases hat i p' hp' with rfl | ⟨p₁, hp₁, rfl | rfl⟩
    · exact hports r hr
    · exact ⟨i, p', hp₁, hr⟩
    · cases hr
  · rcases hkept i p₁ hp₁ q hq with hq' | hstays
    · exact ⟨w.nextPipe, p, Function.update_self .., hq'⟩
    · refine ⟨i, p₁, ?_, hq⟩
      have hne : i ≠ w.nextPipe := by
        rintro rfl
        rw [hfresh _ (Nat.le_refl _)] at hp₁
        cases hp₁
      exact (Function.update_of_ne hne ..).trans hstays

theorem regrouped_newPipe : Regrouped w
    { w with pipes := Function.update w.pipes w.nextPipe (some Pipe.new),
             nextPipe := w.nextPipe + 1 } := by
  refine regrouped_update hfresh (fun i p hp => ⟨p, hp, .inl rfl⟩) (fun q hq => ?_) (fun r hr => ?_)
    fun i p hp q _ => .inr hp
  · cases hq
  · cases hr

/-- **Merging** leaves every processor in a pipe. -/
theorem regrouped_merge {is : List Nat} {w' : World} (hmerge : w.mergeInPlace is = some w') :
    Regrouped w w' := by
  obtain ⟨ps, hps, hmerge⟩ := Option.bind_eq_some_iff.mp hmerge
  obtain ⟨left, hleft, hmerge⟩ := Option.bind_eq_some_iff.mp hmerge
  have hall := forall₂_of_mapM hps
  -- What is left is what the pipe is made of.
  have hks : removeEmptyPipes ps = some (left.map Prod.snd) := by
    rw [← @List.map_snd_zip _ _ is ps (Nat.le_of_eq hall.length_eq.symm), ← map_removeEmpty, hleft]
    rfl
  generalize hpipes : (fun i => if i ∈ is then
      (left.lookup i).map fun p => if left.length = 1 then p.moved else p else w.pipes i) = pipes
    at hmerge
  obtain ⟨hmerged, hthere, hother⟩ := pipes_of_left hall hleft hks hpipes
  rw [mergePipes_of_left hks] at hmerge
  by_cases hnil : left.map Prod.snd = []
  · rw [if_pos hnil] at hmerge
    cases hmerge
    refine ⟨rfl, fun i hi => ?_, fun i p' hp' q hq => ?_, fun i p' hp' r hr => ?_,
      fun i p hp q hq => ?_⟩
    · dsimp only at hi ⊢
      rw [← hpipes]
      dsimp only
      rw [List.map_eq_nil_iff.mp hnil, hfresh i hi]
      split <;> rfl
    · obtain ⟨p, hp, rfl | rfl⟩ := hthere i p' hp'
      · exact ⟨i, p', hp, hq⟩
      · cases hq
    · obtain ⟨p, hp, rfl | rfl⟩ := hthere i p' hp'
      · exact ⟨i, p', hp, hr⟩
      · cases hr
    · rcases hother i p hp q hq with hmem | hsame
      · rw [hnil] at hmem
        cases hmem
      · exact ⟨i, p, hsame, hq⟩
  · rw [if_neg hnil] at hmerge
    cases hmerge
    refine regrouped_update hfresh hthere (fun q hq => ?_) (fun r hr => ?_) fun i p hp q hq => ?_
    · obtain ⟨p, hp, hq⟩ := mem_concatPipes.mp hq
      obtain ⟨i, hi⟩ := hmerged p hp
      exact ⟨i, p, hi, hq⟩
    · rw [outputPorts_concatPipes, List.mem_flatMap] at hr
      obtain ⟨p, hp, hr⟩ := hr
      obtain ⟨i, hi⟩ := hmerged p hp
      exact ⟨i, p, hi, hr⟩
    · exact (hother i p hp q hq).imp_left fun hmem => mem_concatPipes.mpr ⟨p, hmem, hq⟩

end Regroup

namespace Ordered

variable {order : List Nat} {w : World}

theorem lt (h : Ordered order w) {i : Nat} {p : Pipe} (hp : w.pipes i = some p) :
    i < w.nextPipe := by
  by_contra hge
  rw [h.fresh i (by omega)] at hp
  cases hp

theorem not_mem (h : Ordered order w) {q : Nat} (hq : w.Unused q) : q ∉ order := by
  rw [h.mem_iff]
  rintro ⟨i, p, hp, hmem⟩
  exact hq i (h.lt hp) p hp hmem

/-- **A pipe gets a processor**: it comes last in the order, if it is not there yet. -/
theorem grow (h : Ordered order w) {i q : Nat} {p p' : Pipe} {heap : Heap}
    (hp : w.pipes i = some p) (hprocs : p'.processors = p.processors ++ [q])
    (hports : ∀ r ∈ p'.outputPorts, r ∈ p.outputPorts ∨ r.proc = q) (hw : heap.Wired)
    (hconnected : ∀ out inp, heap.Connected out inp →
      w.heap.Connected out inp ∨ out ∈ p.outputPorts ∧ inp.proc = q ∧ q ∉ order) :
    ∃ order', Ordered order'
      { w with heap := heap, pipes := Function.update w.pipes i (some p') } := by
  -- Nothing changes in front of the new processor.
  obtain ⟨order', hmem, hidx, hlast⟩ : ∃ order' : List Nat, (∀ x, x ∈ order' ↔ x ∈ order ∨ x = q) ∧
      (∀ x ∈ order, order'.idxOf x = order.idxOf x) ∧
      (q ∉ order → order'.idxOf q = order.length) := by
    by_cases hq : q ∈ order
    · refine ⟨order, fun x => ?_, fun x _ => rfl, fun hnot => absurd hq hnot⟩
      exact ⟨.inl, fun hx => hx.elim id fun heq => heq ▸ hq⟩
    · refine ⟨order ++ [q], fun x => by simp, fun x hx => List.idxOf_append_of_mem hx, fun _ => ?_⟩
      rw [List.idxOf_append_of_notMem hq, List.idxOf_cons_self, Nat.add_zero]
  refine ⟨order', ?_, fun x => ?_, fun j p₂ hp₂ r hr => ?_, hw, fun out inp hc => ?_⟩
  · intro j hj
    dsimp only at hj ⊢
    have := h.lt hp
    rw [Function.update_of_ne (by omega)]
    exact h.fresh j hj
  · rw [hmem, h.mem_iff]
    constructor
    · rintro (⟨j, p₂, hp₂, hx⟩ | rfl)
      · by_cases hji : j = i
        · subst hji
          cases hp.symm.trans hp₂
          exact ⟨j, p', Function.update_self .., by rw [hprocs]; exact List.mem_append_left _ hx⟩
        · exact ⟨j, p₂, (Function.update_of_ne hji ..).trans hp₂, hx⟩
      · exact ⟨i, p', Function.update_self .., by rw [hprocs]; simp⟩
    · rintro ⟨j, p₂, hp₂, hx⟩
      by_cases hji : j = i
      · subst hji
        cases (Function.update_self ..).symm.trans hp₂
        rw [hprocs, List.mem_append, List.mem_singleton] at hx
        exact hx.imp_left fun hx => ⟨j, p, hp, hx⟩
      · exact .inl ⟨j, p₂, (Function.update_of_ne hji ..).symm.trans hp₂, hx⟩
  · rw [hmem]
    by_cases hji : j = i
    · subst hji
      cases (Function.update_self ..).symm.trans hp₂
      exact (hports r hr).imp_left (h.outputPorts j p hp r)
    · exact .inl (h.outputPorts j p₂ ((Function.update_of_ne hji ..).symm.trans hp₂) r hr)
  · rw [hmem, hmem]
    rcases hconnected out inp hc with hc | ⟨hport, rfl, hq⟩
    · obtain ⟨hout, hinp, hlt⟩ := h.later out inp hc
      exact ⟨.inl hout, .inl hinp, by rw [hidx _ hout, hidx _ hinp]; exact hlt⟩
    · have hout := h.outputPorts i p hp out hport
      refine ⟨.inl hout, .inr rfl, ?_⟩
      rw [hidx _ hout, hlast hq]
      exact List.idxOf_lt_length_of_mem hout

theorem regroup {w' : World} (h : Ordered order w) (hr : Regrouped w w') : Ordered order w' := by
  refine ⟨hr.fresh, fun q => ⟨fun hq => ?_, ?_⟩, fun i p hp r hport => ?_, ?_, fun out inp hc => ?_⟩
  · obtain ⟨i, p, hp, hmem⟩ := (h.mem_iff q).mp hq
    exact hr.kept i p hp q hmem
  · rintro ⟨i, p, hp, hmem⟩
    exact (h.mem_iff q).mpr (hr.processors i p hp q hmem)
  · obtain ⟨j, p', hp', hmem⟩ := hr.outputPorts i p hp r hport
    exact h.outputPorts j p' hp' r hmem
  · rw [hr.heap]
    exact h.wired
  · rw [hr.heap] at hc
    exact h.later out inp hc

end Ordered

/-- **One call** keeps an order. -/
theorem Ordered.call {w w' : World} {op : PipeOp} (h : ∃ order, Ordered order w)
    (hop : w.FreshTransform op) (hcall : w.call op = some w') : ∃ order, Ordered order w' := by
  obtain ⟨order, h⟩ := h
  cases op with
  | newPipe =>
    cases hcall
    exact ⟨order, h.regroup (regrouped_newPipe h.fresh)⟩
  | mergePipes is => exact ⟨order, h.regroup (regrouped_merge h.fresh hcall)⟩
  | addSource i q =>
    obtain ⟨p, s', hp, rfl, hrun | ⟨code, msg, hrun⟩⟩ := onPipe_eq_some hcall
    · obtain ⟨hheap, hprocs, hports⟩ := addSource_ok hrun
      refine h.grow hp hprocs (fun r hr => ?_) ?_ fun out inp hc => ?_
      · rw [hports, List.mem_append, List.mem_singleton] at hr
        rcases hr with hr | rfl
        · exact .inl hr
        · exact .inr rfl
      · rw [hheap]
        exact h.wired
      · rw [hheap] at hc
        exact .inl hc
    · cases addSource_status_unchanged hrun
      exact ⟨order, (update_self hp).symm ▸ h⟩
  | addTransform i q =>
    obtain ⟨p, s', hp, rfl, hrun | ⟨code, msg, hrun⟩⟩ := onPipe_eq_some hcall
    · obtain ⟨hprocs, hports, hw, hconnected⟩ := addTransform_ok h.wired hrun
      refine h.grow hp hprocs (fun r hr => .inr (hports r hr)) hw fun out inp hc => ?_
      exact (hconnected out inp hc).imp_right fun ⟨hout, hinp⟩ => ⟨hout, hinp, h.not_mem hop⟩
    · cases addTransform_status_unchanged hrun
      exact ⟨order, (update_self hp).symm ▸ h⟩

theorem Ordered.of_init {heap : Heap} (hheap : heap.Unconnected) : Ordered [] (init heap) where
  fresh := fun _ _ => rfl
  mem_iff := fun q => by simp [init]
  outputPorts := by intro i p hp; cases hp
  wired := hheap.wired
  later := by
    rintro out inp ⟨st, hout, -⟩
    cases hheap.1 out _ hout

/-- **There is an order** in every state of every run. -/
theorem run_ordered {heap : Heap} {ops : List PipeOp} {w : World} (hheap : heap.Unconnected)
    (hops : Along World.call FreshTransform (init heap) ops)
    (hrun : runSteps World.call (init heap) ops = some w) : ∃ order, Ordered order w :=
  hops.runSteps_inv (fun _ _ _ h hop hcall => Ordered.call h hop hcall)
    ⟨[], Ordered.of_init hheap⟩ hrun

end World

/-! ## The walk ends -/

/-- `current` goes up in the order. -/
theorem World.Ordered.follow {order : List Nat} {w : World} (h : w.Ordered order) (current : Nat) :
    ∃ next, w.heap.follow current = some next ∧
      ∀ q ∈ next, q ∈ order ∧ order.idxOf current < order.idxOf q := by
  rw [Heap.follow]
  split
  · exact ⟨none, rfl, by simp⟩
  · rename_i port ports hports
    cases hstate : port.state with
    | none => exact ⟨none, by simp, by simp⟩
    | some st =>
      have hat : w.heap.output ⟨current, 0⟩ = some port := by
        rw [Heap.output, hports]
        rfl
      obtain ⟨inp, hc⟩ := h.wired.output _ _ hat (by rw [hstate]; simp)
      obtain ⟨-, hinp, hlt⟩ := h.later _ _ hc
      obtain ⟨st', hout, hback⟩ := hc
      cases hat.symm.trans hout
      refine ⟨some inp.proc, by simp [hback], fun q hq => ?_⟩
      cases hq
      exact ⟨hinp, hlt⟩

/-- What a line may have, when the processors of `earlier` were printed before it. -/
structure Printer.Ok (earlier : List Nat) (p : Printer) : Prop where
  nodup : p.line.Nodup
  notEarlier : ∀ q ∈ p.line, q ∉ earlier
  printed_iff : ∀ q, q ∈ p.printed ↔ q ∈ earlier ∨ q ∈ p.line

theorem Printer.Ok.visit {earlier : List Nat} {p : Printer} (h : p.Ok earlier) (q : Nat) :
    (p.visit q).Ok earlier ∧ q ∈ (p.visit q).printed ∧ ∀ x ∈ p.printed, x ∈ (p.visit q).printed := by
  rw [Printer.visit]
  by_cases hq : q ∈ p.printed
  · rw [if_pos hq]
    exact ⟨h, hq, fun x hx => hx⟩
  · rw [if_neg hq]
    refine ⟨⟨?_, fun x hx => ?_, fun x => ?_⟩, List.mem_cons_self, fun x => List.mem_cons_of_mem _⟩
    · refine List.nodup_append.mpr ⟨h.nodup, List.nodup_singleton q, ?_⟩
      rintro x hx y hy rfl
      rw [List.mem_singleton.mp hy] at hx
      exact hq ((h.printed_iff q).mpr (.inr hx))
    · rcases List.mem_append.mp hx with hx | hx
      · exact h.notEarlier x hx
      · rw [List.mem_singleton.mp hx]
        exact fun hearlier => hq ((h.printed_iff q).mpr (.inl hearlier))
    · rw [List.mem_cons, h.printed_iff, List.mem_append, List.mem_singleton]
      tauto

/-- A line has what it comes across and what is in no line yet. -/
theorem Printer.Ok.foldl {earlier : List Nat} : ∀ {qs : List Nat} {p : Printer}, p.Ok earlier →
    (qs.foldl Printer.visit p).Ok earlier ∧
      (∀ x ∈ p.printed, x ∈ (qs.foldl Printer.visit p).printed) ∧
      ∀ q ∈ qs, q ∈ (qs.foldl Printer.visit p).printed := by
  intro qs
  induction qs with
  | nil => intro p h; exact ⟨h, fun x hx => hx, by simp⟩
  | cons q qs ih =>
    intro p h
    obtain ⟨h', hq, hkeep⟩ := h.visit q
    obtain ⟨hok, hmore, hall⟩ := ih h'
    refine ⟨hok, fun x hx => hmore x (hkeep x hx), fun x hx => ?_⟩
    rcases List.mem_cons.mp hx with rfl | hx
    · exact hmore _ hq
    · exact hall x hx

/-- **All lines**, with the same fuel for each. -/
theorem printLines_eq {h : Heap} {n : Nat} : ∀ {sources printed : List Nat},
    (∀ q ∈ sources, ∃ rest, ∀ fuel, n ≤ fuel → walk h.follow fuel (some q) = some (q :: rest)) →
    ∃ lines, (∀ fuel, n ≤ fuel → printLines h fuel sources printed = some lines) ∧
      lines.length = sources.length ∧ lines.flatten.Nodup ∧
      (∀ q ∈ lines.flatten, q ∉ printed) ∧ ∀ q ∈ sources, q ∈ printed ∨ q ∈ lines.flatten := by
  intro sources
  induction sources with
  | nil => intro printed _; exact ⟨[], fun _ _ => rfl, rfl, by simp, by simp, by simp⟩
  | cons source sources ih =>
    intro printed hwalk
    obtain ⟨rest, hrest⟩ := hwalk source List.mem_cons_self
    have hstart : Printer.Ok printed ⟨printed, []⟩ := ⟨List.nodup_nil, by simp, by simp⟩
    obtain ⟨hok, -, hall⟩ := @Printer.Ok.foldl printed (source :: rest) _ hstart
    generalize hp : (source :: rest).foldl Printer.visit ⟨printed, []⟩ = p at hok hall
    obtain ⟨lines, hlines, hlen, hnodup, hnot, hsources⟩ :=
      @ih p.printed fun q hq => hwalk q (List.mem_cons_of_mem _ hq)
    refine ⟨p.line :: lines, fun fuel hfuel => ?_, by simp [hlen], ?_, fun q hq => ?_, fun q hq => ?_⟩
    · rw [printLines, forWalk_eq, hrest fuel hfuel, Option.map_some, hp]
      simp [hlines fuel hfuel]
    · rw [List.flatten_cons]
      refine List.nodup_append.mpr ⟨hok.nodup, hnodup, ?_⟩
      rintro x hx y hy rfl
      exact hnot x hy ((hok.printed_iff x).mpr (.inr hx))
    · rw [List.flatten_cons, List.mem_append] at hq
      rcases hq with hq | hq
      · exact hok.notEarlier q hq
      · exact fun hearlier => hnot q hq ((hok.printed_iff q).mpr (.inl hearlier))
    · rw [List.flatten_cons, List.mem_append, ← or_assoc, ← hok.printed_iff]
      rcases List.mem_cons.mp hq with rfl | hq
      · exact .inl (hall _ List.mem_cons_self)
      · exact hsources q hq

/-- **`ToString` comes to an end**, for every pipe there is in a run, and there is a line for each
source: every source is in one, and no processor is in two lines or twice in one.

A line follows the first output of each processor. It could go round for ever, but a run adds
processors in an order in which connections only lead forward (`World.run_ordered`), so a line is no
longer than the order. -/
theorem toString_ends {heap : Heap} {ops : List PipeOp} {w : World} (hheap : heap.Unconnected)
    (hops : Along World.call World.FreshTransform (World.init heap) ops)
    (hrun : runSteps World.call (World.init heap) ops = some w) {i : Nat} {p : Pipe}
    (hp : w.pipes i = some p) :
    ∃ n lines, (∀ fuel, n ≤ fuel → p.lines w.heap fuel = some lines ∧
        (p.toString w.heap fuel).isSome) ∧
      lines.length = (p.sources w.heap).length ∧ lines.flatten.Nodup ∧
      ∀ q ∈ p.sources w.heap, q ∈ lines.flatten := by
  obtain ⟨order, h⟩ := World.run_ordered hheap hops hrun
  -- How many processors are behind one in the order.
  have hwalk : ∀ q ∈ p.sources w.heap, ∃ rest, ∀ fuel, order.length ≤ fuel →
      walk w.heap.follow fuel (some q) = some (q :: rest) := by
    intro q hq
    have hmem : q ∈ order := (h.mem_iff q).mpr ⟨i, p, hp, List.mem_of_mem_filter hq⟩
    refine @walk_eq _ _ (· ∈ order) (fun q => order.length - 1 - order.idxOf q) (fun a _ => ?_) _ _
      hmem ?_
    · obtain ⟨next, hnext, hlater⟩ := h.follow a
      refine ⟨next, hnext, fun b hb => ?_⟩
      obtain ⟨hb, hlt⟩ := hlater b hb
      have := List.idxOf_lt_length_of_mem hb
      exact ⟨hb, by omega⟩
    · have := List.idxOf_lt_length_of_mem hmem
      omega
  obtain ⟨lines, hlines, hlen, hnodup, -, hsources⟩ := @printLines_eq _ _ _ [] hwalk
  refine ⟨order.length, lines, fun fuel hfuel => ⟨hlines fuel hfuel, ?_⟩, hlen, hnodup, fun q hq => ?_⟩
  · simp [Pipe.toString, Pipe.lines, hlines fuel hfuel]
  · simpa using hsources q hq

theorem World.someProcessors_unconnected : World.someProcessors.Unconnected := by
  refine Heap.unconnected_of_created fun q => ?_
  unfold World.someProcessors
  dsimp only
  split
  · exact ⟨0, 1, rfl⟩
  · exact ⟨0, 1, rfl⟩
  · exact ⟨0, 1, rfl⟩
  · exact ⟨2, 2, rfl⟩
  · exact ⟨3, 1, rfl⟩
  · exact ⟨5, 5, rfl⟩

/-- Two pipes are merged, and their outputs go to one transform. -/
theorem toString_ends_merged : ∃ w p, runSteps World.call (World.init World.someProcessors)
      [.newPipe, .addSource 0 0, .addSource 0 1, .newPipe, .addSource 1 2, .addTransform 0 3,
        .mergePipes [0, 1], .addTransform 2 4] = some w ∧ w.pipes 2 = some p ∧
    ∃ n lines, (∀ fuel, n ≤ fuel → p.lines w.heap fuel = some lines ∧
        (p.toString w.heap fuel).isSome) ∧
      lines.length = (p.sources w.heap).length ∧ lines.flatten.Nodup ∧
      ∀ q ∈ p.sources w.heap, q ∈ lines.flatten := by
  obtain ⟨p, hp⟩ := Option.isSome_iff_exists.mp (by decide +kernel :
    ((runSteps World.call (World.init World.someProcessors)
      [.newPipe, .addSource 0 0, .addSource 0 1, .newPipe, .addSource 1 2, .addTransform 0 3,
        .mergePipes [0, 1], .addTransform 2 4]).bind fun w => w.pipes 2).isSome = true)
  obtain ⟨w, hrun, hp⟩ := Option.bind_eq_some_iff.mp hp
  exact ⟨w, p, hrun, hp,
    toString_ends World.someProcessors_unconnected (by decide +kernel) hrun hp⟩

end CxxLab.CkLab
