import CxxLab.CkLab.Pipe
import Mathlib.Algebra.Order.Ring.Nat
import Mathlib.Data.List.DropRight

/-!
# `Pipe::MergePipes` — pipes that are empty

`RemoveEmptyPipes` erases the empty pipes of the vector while it goes through it. `it` is set to
what `erase` returns, the pipe behind the erased one, and the loop goes on with `++it`: that pipe is
not looked at. So of the empty pipes that stand next to one another every second one stays, and where
the last pipe of the vector is erased `++it` goes past the end.

What stays is harmless between other pipes, where it has no ports and no streams, and is the result
where there is nothing else.
-/

set_option autoImplicit false

namespace CxxLab.CkLab

open CxxLab.Lib

/-- **What `MergePipes` is for**, with empty pipes in any place. -/
structure MergesNonEmpty (ps : List Pipe) : Prop where
  /-- The iterator stays in the vector. -/
  defined : mergePipes ps ≠ none
  null_iff : mergePipes ps = some none ↔ ∀ p ∈ ps, p.empty = true
  merged : ∀ p, mergePipes ps = some (some p) →
    p.processors = (ps.filter fun p => !p.empty).flatMap Pipe.processors ∧
    p.outputPorts = (ps.filter fun p => !p.empty).flatMap Pipe.outputPorts ∧
    p.maxParallelStreams = ((ps.filter fun p => !p.empty).map Pipe.maxParallelStreams).sum

/-- How many empty pipes stand right in front of a place in the vector. -/
def emptyBefore (ps : List Pipe) (i : Nat) : Nat := ((ps.take i).rtakeWhile Pipe.empty).length

/-- The pipe is empty and has nothing: as `Pipe()` makes it. -/
def Pipe.Blank (p : Pipe) : Prop := p.outputPorts = [] ∧ p.maxParallelStreams = 0

/-- Every second of the empty pipes that stand next to one another. -/
def SteppedOver (ps : List Pipe) (p : Pipe) : Prop :=
  ∃ i : Nat, ps[i]? = some p ∧ p.empty = true ∧ emptyBefore ps i % 2 = 1

/-! ## Runs of empty pipes -/

theorem emptyBefore_zero (ps : List Pipe) : emptyBefore ps 0 = 0 := by
  rw [emptyBefore, List.take_zero, List.rtakeWhile_nil, List.length_nil]

/-- A pipe in front counts where there is nothing but empty pipes behind it. -/
theorem emptyBefore_cons (p : Pipe) (ps : List Pipe) (i : Nat) : emptyBefore (p :: ps) (i + 1) =
    emptyBefore ps i + if p.empty ∧ (ps.take i).all Pipe.empty then 1 else 0 := by
  rw [emptyBefore, emptyBefore, List.take_succ_cons]
  by_cases hall : (ps.take i).all Pipe.empty
  · have hself : (ps.take i).rtakeWhile Pipe.empty = ps.take i :=
      List.rtakeWhile_eq_self_iff.mpr (List.all_eq_true.mp hall)
    rw [hself]
    cases hp : p.empty with
    | true =>
      have hcons : (p :: ps.take i).rtakeWhile Pipe.empty = p :: ps.take i := by
        rw [List.rtakeWhile_eq_self_iff]
        exact List.forall_mem_cons.mpr ⟨hp, List.all_eq_true.mp hall⟩
      rw [hcons, if_pos ⟨rfl, hall⟩, List.length_cons]
    | false =>
      rw [if_neg (by simp), Nat.add_zero, List.rtakeWhile, List.reverse_cons, List.takeWhile_append]
      rw [List.rtakeWhile, List.reverse_eq_iff] at hself
      simp [hself, hp]
  · rw [if_neg fun h => hall h.2, Nat.add_zero, List.rtakeWhile, List.reverse_cons,
      List.takeWhile_append, if_neg]
    · rfl
    · intro hlen
      apply hall
      have heq := (List.takeWhile_prefix Pipe.empty).eq_of_length hlen
      exact List.all_eq_true.mpr (List.rtakeWhile_eq_self_iff.mp (by rw [List.rtakeWhile, heq, List.reverse_reverse]))

theorem emptyBefore_nonempty {p : Pipe} (hp : p.empty = false) (ps : List Pipe) (i : Nat) :
    emptyBefore (p :: ps) (i + 1) = emptyBefore ps i := by
  rw [emptyBefore_cons, if_neg fun h => by simp [hp] at h, Nat.add_zero]

/-- Two pipes, the first empty, do not change the parity behind them. -/
theorem emptyBefore_two {p : Pipe} (hp : p.empty = true) (p' : Pipe) (ps : List Pipe) (i : Nat) :
    emptyBefore (p :: p' :: ps) (i + 2) % 2 = emptyBefore ps i % 2 := by
  rw [emptyBefore_cons, emptyBefore_cons, List.take_succ_cons, List.all_cons]
  cases hp' : p'.empty <;> cases hall : (ps.take i).all Pipe.empty <;> simp [hp]
  omega

theorem emptyBefore_one {p : Pipe} (hp : p.empty = true) (ps : List Pipe) :
    emptyBefore (p :: ps) 1 = 1 := by
  rw [emptyBefore_cons, emptyBefore_zero, if_pos ⟨hp, by simp⟩]

theorem not_steppedOver_nil (x : Pipe) : ¬ SteppedOver [] x := by
  rintro ⟨i, hi, -⟩
  cases hi

theorem steppedOver_nonempty {p : Pipe} (hp : p.empty = false) (ps : List Pipe) (x : Pipe) :
    SteppedOver (p :: ps) x ↔ SteppedOver ps x := by
  constructor
  · rintro ⟨i, hi, hx, hodd⟩
    cases i with
    | zero => rw [emptyBefore_zero] at hodd; cases hodd
    | succ i => exact ⟨i, hi, hx, emptyBefore_nonempty hp ps i ▸ hodd⟩
  · rintro ⟨i, hi, hx, hodd⟩
    exact ⟨i + 1, hi, hx, (emptyBefore_nonempty hp ps i).symm ▸ hodd⟩

theorem steppedOver_two {p : Pipe} (hp : p.empty = true) (p' : Pipe) (ps : List Pipe) (x : Pipe) :
    SteppedOver (p :: p' :: ps) x ↔ x = p' ∧ x.empty = true ∨ SteppedOver ps x := by
  constructor
  · rintro ⟨i, hi, hx, hodd⟩
    rcases i with _ | _ | i
    · rw [emptyBefore_zero] at hodd
      cases hodd
    · cases hi
      exact .inl ⟨rfl, hx⟩
    · exact .inr ⟨i, hi, hx, (emptyBefore_two hp p' ps i).symm.trans hodd⟩
  · rintro (⟨rfl, hx⟩ | ⟨i, hi, hx, hodd⟩)
    · exact ⟨1, rfl, hx, by rw [emptyBefore_one hp]⟩
    · exact ⟨i + 2, hi, hx, (emptyBefore_two hp p' ps i).trans hodd⟩

/-! ## What is left of the vector -/

/-- The iterator goes past the end where the pipes at the end are an odd number. -/
theorem removeEmptyPipes_eq_none_iff (ps : List Pipe) :
    removeEmptyPipes ps = none ↔ emptyBefore ps ps.length % 2 = 1 := by
  induction ps using removeEmptyPipes.induct with
  | case1 => simp [removeEmptyPipes, emptyBefore_zero]
  | case2 p hp =>
    rw [removeEmptyPipes, if_pos hp, List.length_singleton, emptyBefore_one hp]
    simp
  | case3 p hp =>
    have hp := Bool.not_eq_true _ ▸ hp
    rw [removeEmptyPipes, hp, List.length_singleton, emptyBefore_nonempty hp, emptyBefore_zero]
    simp
  | case4 p p' ps hp ih =>
    rw [removeEmptyPipes, if_pos hp, Option.map_eq_none_iff, ih, List.length_cons, List.length_cons,
      emptyBefore_two hp]
  | case5 p p' ps hp ih =>
    have hp' : p.empty = false := Bool.not_eq_true _ ▸ hp
    rw [removeEmptyPipes, if_neg hp, Option.map_eq_none_iff, ih, List.length_cons (a := p),
      emptyBefore_nonempty hp']

/-- **What is left**: the pipes that are not empty, in order, and between them the ones the iterator
stepped over. -/
structure Left (ps ks : List Pipe) : Prop where
  filter : (ks.filter fun p => !p.empty) = ps.filter fun p => !p.empty
  stepped : ∀ x, x ∈ ks ∧ x.empty = true ↔ SteppedOver ps x
  nil_iff : ks = [] ↔ ps = []

theorem left_of_removeEmptyPipes : ∀ {ps ks : List Pipe}, removeEmptyPipes ps = some ks → Left ps ks := by
  intro ps
  induction ps using removeEmptyPipes.induct with
  | case1 =>
    intro ks h
    cases h
    exact ⟨rfl, fun x => by simp [not_steppedOver_nil], Iff.rfl⟩
  | case2 p hp =>
    intro ks h
    rw [removeEmptyPipes, if_pos hp] at h
    cases h
  | case3 p hp =>
    intro ks h
    rw [removeEmptyPipes, if_neg hp] at h
    cases h
    have hp' : p.empty = false := Bool.not_eq_true _ ▸ hp
    refine ⟨rfl, fun x => ?_, Iff.rfl⟩
    rw [steppedOver_nonempty hp', List.mem_singleton]
    refine iff_of_false ?_ (not_steppedOver_nil x)
    rintro ⟨rfl, hx⟩
    exact hp hx
  | case4 p p' ps hp ih =>
    intro ks h
    rw [removeEmptyPipes, if_pos hp] at h
    obtain ⟨rest, hrest, rfl⟩ := Option.map_eq_some_iff.mp h
    obtain ⟨hfilter, hstepped, -⟩ := ih hrest
    refine ⟨?_, fun x => ?_, by simp⟩
    · rw [List.filter_cons_of_neg (a := p) (by simp [hp])]
      cases hp' : p'.empty with
      | true =>
        rw [List.filter_cons_of_neg (by simp [hp']), List.filter_cons_of_neg (by simp [hp']), hfilter]
      | false =>
        rw [List.filter_cons_of_pos (by simp [hp']), List.filter_cons_of_pos (by simp [hp']), hfilter]
    · rw [steppedOver_two hp, List.mem_cons, or_and_right, hstepped]
  | case5 p p' ps hp ih =>
    intro ks h
    rw [removeEmptyPipes, if_neg hp] at h
    obtain ⟨rest, hrest, rfl⟩ := Option.map_eq_some_iff.mp h
    obtain ⟨hfilter, hstepped, -⟩ := ih hrest
    have hp' : p.empty = false := Bool.not_eq_true _ ▸ hp
    refine ⟨?_, fun x => ?_, by simp⟩
    · rw [List.filter_cons_of_pos (by simp [hp']), List.filter_cons_of_pos (by simp [hp']), hfilter]
    · rw [steppedOver_nonempty hp', ← hstepped, List.mem_cons, or_and_right]
      refine or_iff_right ?_
      rintro ⟨rfl, hx⟩
      exact hp hx

/-! ## What is made of it -/

theorem processors_concatPipes (ps : List Pipe) :
    (concatPipes ps).processors = ps.flatMap Pipe.processors := by
  induction ps with
  | nil => rfl
  | cons p ps ih => rw [concatPipes_cons, List.flatMap_cons, ih]

theorem outputPorts_concatPipes (ps : List Pipe) :
    (concatPipes ps).outputPorts = ps.flatMap Pipe.outputPorts := by
  induction ps with
  | nil => rfl
  | cons p ps ih => rw [concatPipes_cons, List.flatMap_cons, ih]

theorem maxParallelStreams_concatPipes (ps : List Pipe) :
    (concatPipes ps).maxParallelStreams = (ps.map Pipe.maxParallelStreams).sum := by
  induction ps with
  | nil => rfl
  | cons p ps ih => rw [concatPipes_cons, List.map_cons, List.sum_cons, ih]

/-- One pipe that is moved is that pipe put together with nothing. -/
theorem mergePipes_of_left {ps ks : List Pipe} (h : removeEmptyPipes ps = some ks) :
    mergePipes ps = some (if ks = [] then none else some (concatPipes ks)) := by
  rw [mergePipes, h]
  rcases ks with _ | ⟨p, _ | ⟨p', ks⟩⟩
  · rfl
  · rw [if_neg (by simp), concatPipes_cons]
    simp [concatPipes, Pipe.new]
  · rw [if_neg (by simp)]
    rfl

section Filter

variable {c : Pipe → Bool}

/-- What a filter leaves out adds nothing if and only if it has nothing. -/
theorem flatMap_filter_eq_iff {β : Type} {f : Pipe → List β} {ks : List Pipe} :
    (ks.filter c).flatMap f = ks.flatMap f ↔ ∀ x ∈ ks, c x = false → f x = [] := by
  have hfilter : (ks.filter c).flatMap f = ks.flatMap fun x => if c x then f x else [] := by
    induction ks with
    | nil => rfl
    | cons x ks ih => cases hx : c x <;> simp [hx, ih]
  rw [hfilter, flatMap_eq_flatMap_iff fun x _ => by split <;> simp]
  refine forall₂_congr fun x _ => ?_
  cases c x <;> simp [@eq_comm _ _ (f x)]

theorem sum_filter_le {g : Pipe → Nat} (ks : List Pipe) :
    ((ks.filter c).map g).sum ≤ (ks.map g).sum := by
  induction ks with
  | nil => exact Nat.le_refl _
  | cons x ks ih =>
    cases hx : c x
    · rw [List.filter_cons_of_neg (by simp [hx]), List.map_cons, List.sum_cons]
      omega
    · rw [List.filter_cons_of_pos hx, List.map_cons, List.map_cons, List.sum_cons, List.sum_cons]
      omega

theorem sum_filter_eq_iff {g : Pipe → Nat} {ks : List Pipe} :
    ((ks.filter c).map g).sum = (ks.map g).sum ↔ ∀ x ∈ ks, c x = false → g x = 0 := by
  induction ks with
  | nil => simp
  | cons x ks ih =>
    have hle := sum_filter_le (c := c) (g := g) ks
    rw [List.forall_mem_cons, ← ih]
    cases hx : c x
    · rw [List.filter_cons_of_neg (by simp [hx]), List.map_cons, List.sum_cons]
      constructor
      · intro heq
        exact ⟨fun _ => by omega, by omega⟩
      · rintro ⟨hzero, heq⟩
        have := hzero rfl
        omega
    · rw [List.filter_cons_of_pos hx, List.map_cons, List.map_cons, List.sum_cons, List.sum_cons]
      simp

end Filter

/-- What is left makes the same pipe as the pipes that are not empty if and only if the ones that
were stepped over are blank. -/
theorem Left.concat_iff {ps ks : List Pipe} (h : Left ps ks) :
    ((concatPipes ks).processors = (ps.filter fun p => !p.empty).flatMap Pipe.processors ∧
      (concatPipes ks).outputPorts = (ps.filter fun p => !p.empty).flatMap Pipe.outputPorts ∧
      (concatPipes ks).maxParallelStreams =
        ((ps.filter fun p => !p.empty).map Pipe.maxParallelStreams).sum) ↔
    ∀ p, SteppedOver ps p → p.Blank := by
  rw [← h.filter, processors_concatPipes, outputPorts_concatPipes, maxParallelStreams_concatPipes,
    @eq_comm _ (ks.flatMap _), @eq_comm _ (ks.flatMap _), @eq_comm _ (ks.map _).sum,
    flatMap_filter_eq_iff, flatMap_filter_eq_iff, sum_filter_eq_iff]
  have hprocs : ∀ x ∈ ks, (!x.empty) = false → x.processors = [] := by
    intro x _ hx
    simpa [Pipe.empty] using hx
  constructor
  · rintro ⟨-, hports, hstreams⟩ p hp
    obtain ⟨hmem, hempty⟩ := (h.stepped p).mpr hp
    exact ⟨hports p hmem (by rw [hempty]; rfl), hstreams p hmem (by rw [hempty]; rfl)⟩
  · intro hblank
    have hall : ∀ x ∈ ks, (!x.empty) = false → x.Blank := fun x hx hempty =>
      hblank x ((h.stepped x).mp ⟨hx, by simpa using hempty⟩)
    exact ⟨hprocs, fun x hx hempty => (hall x hx hempty).1, fun x hx hempty => (hall x hx hempty).2⟩

/-- **Empty pipes do no harm if and only if** the vector is empty or has a pipe that is not, the
empty pipes at its end are an even number, and every second of the empty pipes that stand next to
one another has neither ports nor streams.

The loop does not look at the pipe that moves up into the place of an erased one. So of empty pipes
next to one another every second one stays. If all are empty, one that stays is the result; if the
last is erased, the loop goes past the end; and if one that stays has ports or streams, they come
into the result. -/
theorem mergesNonEmpty_iff (ps : List Pipe) : MergesNonEmpty ps ↔
    (ps = [] ∨ ∃ p ∈ ps, p.empty = false) ∧ emptyBefore ps ps.length % 2 = 0 ∧
      ∀ p, SteppedOver ps p → p.Blank := by
  cases hleft : removeEmptyPipes ps with
  | none =>
    have hodd := (removeEmptyPipes_eq_none_iff ps).mp hleft
    refine iff_of_false (fun h => h.defined ?_) fun ⟨_, heven, _⟩ => by omega
    rw [mergePipes, hleft]
    rfl
  | some ks =>
    have heven : emptyBefore ps ps.length % 2 = 0 := by
      have := mt (removeEmptyPipes_eq_none_iff ps).mpr (by rw [hleft]; simp)
      omega
    have hl := left_of_removeEmptyPipes hleft
    have hmerge := mergePipes_of_left hleft
    by_cases hnil : ps = []
    · rw [if_pos (hl.nil_iff.mpr hnil)] at hmerge
      subst hnil
      refine iff_of_true ⟨by rw [hmerge]; simp, by simp [hmerge], fun p hp => ?_⟩
        ⟨.inl rfl, heven, fun p hp => absurd hp (not_steppedOver_nil p)⟩
      rw [hmerge] at hp
      cases hp
    · rw [if_neg (mt hl.nil_iff.mp hnil)] at hmerge
      constructor
      · intro h
        refine ⟨.inr ?_, heven, hl.concat_iff.mp (h.merged _ hmerge)⟩
        by_contra hno
        have hnull := h.null_iff.mpr fun p hp => Bool.of_not_eq_false fun hpe => hno ⟨p, hp, hpe⟩
        rw [hmerge] at hnull
        cases hnull
      · rintro ⟨hsome, -, hblank⟩
        obtain ⟨p, hp, hpe⟩ := hsome.resolve_left hnil
        refine ⟨by rw [hmerge]; simp, iff_of_false (by rw [hmerge]; simp) fun hall => ?_,
          fun p hp => ?_⟩
        · rw [hall p hp] at hpe
          cases hpe
        · rw [hmerge] at hp
          cases hp
          exact hl.concat_iff.mpr hblank

/-- The last of the empty pipes is erased, and the iterator is past the end. -/
theorem not_mergesNonEmpty : ¬ MergesNonEmpty [⟨[0], [⟨0, 0⟩], 1⟩, Pipe.new] :=
  fun h => h.defined rfl

/-- Two new pipes: the first is erased and the second is the result. -/
example : mergePipes [Pipe.new, Pipe.new] = some (some Pipe.new) := rfl

end CxxLab.CkLab
