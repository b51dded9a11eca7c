import Mathlib.Data.List.TakeWhile

/-!
# Reading with one item of look-ahead

A reader that has looked at one item more than it has used. `look` is that item, or nothing where the
input has ended, and `rest` is what is still to be read; both are kept between one call and the next.
What counts is `pending`, the two put together, and that a reader *is* what it has pending
(`ofPending_pending`).

`scan` reads on for as long as a test holds of the item looked at. It is the longest stretch that the
test holds of, in the sense of `Munch`, and leaves the item behind it to be looked at.
-/

set_option autoImplicit false

namespace CxxLab.Lib

structure Lookahead (α : Type) where
  look : Option α
  rest : List α
  ended : look = none → rest = []

/-- `run` is the longest beginning of `input` that `p` holds of, and `rest` is what is left. -/
structure Munch {α : Type} (p : α → Bool) (input run rest : List α) : Prop where
  input : input = run ++ rest
  all : ∀ c ∈ run, p c = true
  stop : ∀ c ∈ rest.head?, p c = false

namespace Lookahead

variable {α : Type} {p : α → Bool}

def pending (l : Lookahead α) : List α := l.look.toList ++ l.rest

/-- The reader with the given items pending. -/
def ofPending : List α → Lookahead α
  | [] => ⟨none, [], fun _ => rfl⟩
  | c :: cs => ⟨some c, cs, nofun⟩

@[simp] theorem pending_ofPending (cs : List α) : (ofPending cs).pending = cs := by
  cases cs <;> rfl

theorem ofPending_pending (l : Lookahead α) : ofPending l.pending = l := by
  obtain ⟨look, rest, ended⟩ := l
  cases look with
  | none =>
    cases ended rfl
    rfl
  | some c => rfl

/-- Use the item looked at, and look at the next one. -/
def next (l : Lookahead α) : Lookahead α := ofPending l.rest

@[simp] theorem next_ofPending_cons (c : α) (cs : List α) :
    (ofPending (c :: cs)).next = ofPending cs := rfl

theorem length_next {l : Lookahead α} {c : α} (h : l.look = some c) :
    l.next.pending.length < l.pending.length := by
  rw [next, pending_ofPending, pending, h]
  exact Nat.lt_succ_self _

/-- Read on for as long as `p` holds. -/
def scan (p : α → Bool) (l : Lookahead α) : List α × Lookahead α :=
  match _h : l.look with
  | none => ([], l)
  | some c =>
    if p c then
      let (cs, l) := scan p l.next
      (c :: cs, l)
    else ([], l)
termination_by l.pending.length
decreasing_by exact length_next ‹_›

/-- **What is scanned**, in terms of what is pending. -/
theorem scan_ofPending (p : α → Bool) (cs : List α) :
    scan p (ofPending cs) = (cs.takeWhile p, ofPending (cs.dropWhile p)) := by
  induction cs with
  | nil =>
    rw [scan]
    rfl
  | cons c cs ih =>
    rw [scan]
    show (if p c then (c :: (scan p (ofPending cs)).1, (scan p (ofPending cs)).2)
      else ([], ofPending (c :: cs))) = _
    rw [ih]
    cases hc : p c with
    | true => rw [if_pos rfl, List.takeWhile_cons_of_pos hc, List.dropWhile_cons_of_pos hc]
    | false =>
      have hc' : ¬ p c = true := by simp [hc]
      rw [if_neg Bool.false_ne_true, List.takeWhile_cons_of_neg hc', List.dropWhile_cons_of_neg hc']

theorem length_scan_le (p : α → Bool) (l : Lookahead α) :
    (scan p l).2.pending.length ≤ l.pending.length := by
  rw [← ofPending_pending l, scan_ofPending, pending_ofPending, pending_ofPending]
  exact List.length_dropWhile_le p _

end Lookahead

/-- **The longest beginning** is the one that is scanned. -/
theorem munch_iff {α : Type} {p : α → Bool} {input run rest : List α} :
    Munch p input run rest ↔ run = input.takeWhile p ∧ rest = input.dropWhile p := by
  constructor
  · rintro ⟨rfl, hall, hstop⟩
    have hrest : rest.takeWhile p = [] ∧ rest.dropWhile p = rest := by
      cases rest with
      | nil => exact ⟨rfl, rfl⟩
      | cons c rest =>
        have hc : ¬ p c = true := by simp [hstop c rfl]
        exact ⟨List.takeWhile_cons_of_neg hc, List.dropWhile_cons_of_neg hc⟩
    rw [List.takeWhile_append_of_pos hall, List.dropWhile_append_of_pos hall, hrest.1, hrest.2,
      List.append_nil]
    exact ⟨rfl, rfl⟩
  · rintro ⟨rfl, rfl⟩
    refine ⟨List.takeWhile_append_dropWhile.symm, fun c hc => List.mem_takeWhile_imp hc, ?_⟩
    intro c hc
    have hstop := List.head?_dropWhile_not p input
    rw [Option.mem_def.mp hc] at hstop
    exact hstop

end CxxLab.Lib
