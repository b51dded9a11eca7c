import Mathlib.Order.Basic

/-!
# Stateful code that can fail

The modelled programs return a status from almost every call and leave early when it is not
OK, with whatever they had already changed left changed. That is a computation over a state
that either gives a value or stops, and *in both cases* gives a state back: `ExceptT` over
`StateM`, in this order.

A program is read through `exec`, which runs it from a state. The rules below are how the
proofs step through one: `exec_bind_ok` passes over a call whose outcome is known, so a
caller never unfolds the callee.
-/

set_option autoImplicit false

namespace CxxLab.Lib

/-- Computations over a state `σ` that give an `α` or stop with an `ε`. -/
abbrev Exec (ε σ α : Type) := ExceptT ε (StateM σ) α

namespace Exec

variable {ε σ α β : Type}

/-- Run a computation from a state: its outcome, and the state it leaves. -/
def exec (x : Exec ε σ α) (s : σ) : Except ε α × σ := x.run s

@[simp] theorem exec_pure (a : α) (s : σ) : exec (pure a : Exec ε σ α) s = (.ok a, s) := rfl

@[simp] theorem exec_throw (e : ε) (s : σ) : exec (throw e : Exec ε σ α) s = (.error e, s) := rfl

@[simp] theorem exec_get (s : σ) : exec (get : Exec ε σ σ) s = (.ok s, s) := rfl

@[simp] theorem exec_modify (f : σ → σ) (s : σ) :
    exec (modify f : Exec ε σ Unit) s = (.ok (), f s) := rfl

theorem exec_bind (x : Exec ε σ α) (f : α → Exec ε σ β) (s : σ) :
    exec (x >>= f) s = match exec x s with
      | (.ok a, s') => exec (f a) s'
      | (.error e, s') => (.error e, s') := by
  show (fun p : Except ε α × σ => (ExceptT.bindCont f p.1 : StateM σ (Except ε β)) p.2) (exec x s)
    = _
  rcases exec x s with ⟨r, s'⟩
  cases r <;> rfl

theorem exec_map (f : α → β) (x : Exec ε σ α) (s : σ) :
    exec (f <$> x) s = match exec x s with
      | (.ok a, s') => (.ok (f a), s')
      | (.error e, s') => (.error e, s') := by
  rw [map_eq_pure_bind, exec_bind]
  rfl

theorem exec_bind_ok {x : Exec ε σ α} {f : α → Exec ε σ β} {s s' : σ} {a : α}
    (h : exec x s = (.ok a, s')) : exec (x >>= f) s = exec (f a) s' := by
  rw [exec_bind, h]

/-- What becomes of its result does not matter to a call that fails. -/
theorem exec_bind_pure_error (f : α → β) (x : Exec ε σ α) (s : σ) (e : ε) :
    (exec (x >>= fun a => pure (f a)) s).1 = .error e ↔ (exec x s).1 = .error e := by
  rw [exec_bind]
  rcases exec x s with ⟨r, s'⟩
  cases r <;> simp

theorem exec_tryCatch (x : Exec ε σ α) (f : ε → Exec ε σ α) (s : σ) :
    exec (tryCatch x f) s = match exec x s with
      | (.ok a, s') => (.ok a, s')
      | (.error e, s') => exec (f e) s' := by
  show (fun p : Except ε α × σ => StateT.run (m := Id) (match p.1 with
    | .ok a => (pure (.ok a))
    | .error e => f e) p.2) (exec x s) = _
  rcases exec x s with ⟨r, s'⟩
  cases r <;> rfl

theorem exec_tryCatch_ok {x : Exec ε σ α} {f : ε → Exec ε σ α} {s s' : σ} {a : α}
    (h : exec x s = (.ok a, s')) : exec (tryCatch x f) s = (.ok a, s') := by
  rw [exec_tryCatch, h]

end Exec

end CxxLab.Lib
