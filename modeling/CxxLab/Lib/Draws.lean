import Mathlib.Order.Basic

/-!
# Programs that draw numbers

A program that asks for random numbers is read with the numbers it is going to get, one for each
time it asks; any number of the range may be one of them. It has no result if a number is out of
the range that was asked for, or if there are no more numbers: then it is still running.

`Always x P` says that whatever was drawn, a result of `x` has `P`. The rules take a program apart as
it is put together, and `Always.loop` is the one for `while (true)`: what every turn keeps if it goes
on, it can use in the next.
-/

set_option autoImplicit false

namespace CxxLab.Lib

variable {α β : Type}

/-- Programs over the numbers still to be drawn. -/
abbrev Draws (α : Type) := StateT (List Nat) Option α

namespace Draws

/-- A number of the range. -/
def draw (lo hi : Nat) : Draws Nat
  | [] => none
  | x :: xs => if lo ≤ x ∧ x ≤ hi then some (x, xs) else none

/-- At most so many turns, each of which gives a result or goes on. -/
def loopFor (turn : β → Draws (α ⊕ β)) : Nat → β → Draws α
  | 0, _ => fun _ => none
  | n + 1, b => do
    match ← turn b with
    | .inl a => return a
    | .inr b => loopFor turn n b

/-- `while (true)` over turns that draw: there are no more turns than numbers, and the one that
ends it. -/
def loop (turn : β → Draws (α ⊕ β)) (b : β) : Draws α := fun xs => loopFor turn (xs.length + 1) b xs

/-- Whatever was drawn, the result has `P`. -/
def Always (x : Draws α) (P : α → Prop) : Prop := ∀ xs a xs', x xs = some (a, xs') → P a

theorem bind_eq_some {x : Draws α} {f : α → Draws β} {xs xs' : List Nat} {b : β}
    (h : (x >>= f) xs = some (b, xs')) :
    ∃ a ys, x xs = some (a, ys) ∧ f a ys = some (b, xs') := by
  obtain ⟨⟨a, ys⟩, hx, hf⟩ := Option.bind_eq_some_iff.mp h
  exact ⟨a, ys, hx, hf⟩

theorem bind_of_eq {x : Draws α} {f : α → Draws β} {xs ys : List Nat} {a : α}
    (h : x xs = some (a, ys)) : (x >>= f) xs = f a ys := by
  show (x xs).bind (fun p => f p.1 p.2) = _
  rw [h]
  rfl

theorem draw_of_mem {lo hi x : Nat} (hlo : lo ≤ x) (hhi : x ≤ hi) (xs : List Nat) :
    draw lo hi (x :: xs) = some (x, xs) := if_pos ⟨hlo, hhi⟩

namespace Always

variable {P : α → Prop} {Q : β → Prop} {x : Draws α}

protected theorem pure {a : α} (h : P a) : Always (pure a) P := by
  rintro xs a' xs' ⟨⟩
  exact h

protected theorem bind {f : α → Draws β} (hx : Always x P) (hf : ∀ a, P a → Always (f a) Q) :
    Always (x >>= f) Q := by
  intro xs b xs' h
  obtain ⟨a, ys, hfirst, hrest⟩ := bind_eq_some h
  exact hf a (hx xs a ys hfirst) ys b xs' hrest

theorem mono {P' : α → Prop} (h : Always x P') (himp : ∀ a, P' a → P a) : Always x P :=
  fun xs a xs' hrun => himp a (h xs a xs' hrun)

protected theorem ite {c : Prop} [Decidable c] {x y : Draws α} (hx : c → Always x P)
    (hy : ¬ c → Always y P) : Always (if c then x else y) P := by
  split
  · rename_i h
    exact hx h
  · rename_i h
    exact hy h

theorem draw (lo hi : Nat) : Always (draw lo hi) fun n => lo ≤ n ∧ n ≤ hi := by
  intro xs n xs' h
  cases xs with
  | nil => cases h
  | cons x xs =>
    obtain ⟨hmem, heq⟩ := Option.ite_none_right_eq_some.mp h
    cases heq
    exact hmem

/-- **The rule for loops.** -/
theorem loop {turn : β → Draws (α ⊕ β)} {I : β → Prop}
    (hturn : ∀ b, I b → Always (turn b) (Sum.elim P I)) {b : β} (hb : I b) :
    Always (loop turn b) P := by
  have hfor : ∀ n b, I b → Always (loopFor turn n b) P := by
    intro n
    induction n with
    | zero => intro b _ xs a xs' h; cases h
    | succ n ih =>
      intro b hb
      refine (hturn b hb).bind fun r hr => ?_
      cases r with
      | inl a => exact .pure hr
      | inr b' => exact ih b' hr
  exact fun xs => hfor (xs.length + 1) b hb xs

end Always

theorem loop_of_inl {turn : β → Draws (α ⊕ β)} {b : β} {xs ys : List Nat} {a : α}
    (h : turn b xs = some (.inl a, ys)) : loop turn b xs = some (a, ys) := by
  rw [loop, loopFor, bind_of_eq h]
  rfl

theorem loop_of_inr {turn : β → Draws (α ⊕ β)} {b b' : β} {x : Nat} {xs : List Nat}
    (h : turn b (x :: xs) = some (.inr b', xs)) : loop turn b (x :: xs) = loop turn b' xs := by
  rw [loop, loopFor, bind_of_eq h]
  rfl

end Draws

end CxxLab.Lib
