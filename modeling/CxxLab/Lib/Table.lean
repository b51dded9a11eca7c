import Mathlib.Algebra.BigOperators.Group.List.Basic
import Mathlib.Data.List.Nodup

/-!
# Tables

The rows of a table are a list, and `UPDATE … SET … WHERE …` is a map over it: `updateWhere`. A
`Table` is one with a primary key, which no two rows share and no update changes.

What is said of a column as a whole is a sum over rows, so the two facts that carry the proofs are
`sum_map_updateWhere` — an update that adds the same to a column adds that as often as there are
rows it meets — and `Table.countP_key`, that a key is met once.
-/

set_option autoImplicit false

namespace CxxLab.Lib

variable {R K A : Type}

/-! ## Rows -/

/-- `UPDATE … SET f WHERE p`. -/
def updateWhere (p : R → Bool) (f : R → R) (rows : List R) : List R :=
  rows.map fun r => if p r then f r else r

theorem mem_updateWhere {p : R → Bool} {f : R → R} {rows : List R} {r : R} :
    r ∈ updateWhere p f rows ↔ ∃ r₀ ∈ rows, (if p r₀ then f r₀ else r₀) = r := by
  rw [updateWhere, List.mem_map]

theorem map_updateWhere {p : R → Bool} {f : R → R} {g : R → A} (hg : ∀ r, g (f r) = g r)
    (rows : List R) : (updateWhere p f rows).map g = rows.map g := by
  rw [updateWhere, List.map_map]
  refine List.map_congr_left fun r _ => ?_
  rw [Function.comp_apply]
  split
  · exact hg r
  · rfl

theorem filter_updateWhere {p q : R → Bool} {f : R → R} (hq : ∀ r, q (f r) = q r) (rows : List R) :
    (updateWhere p f rows).filter q = updateWhere p f (rows.filter q) := by
  rw [updateWhere, List.filter_map, updateWhere]
  refine congrArg _ (List.filter_congr fun r _ => ?_)
  rw [Function.comp_apply]
  split
  · exact hq r
  · rfl

/-- **A column that the update adds to**, summed. -/
theorem sum_map_updateWhere [AddCommMonoid A] {p : R → Bool} {f : R → R} {g : R → A} {a : A}
    (hg : ∀ r, g (f r) = g r + a) (rows : List R) :
    ((updateWhere p f rows).map g).sum = (rows.map g).sum + rows.countP p • a := by
  induction rows with
  | nil => simp [updateWhere]
  | cons r rows ih =>
    rw [updateWhere] at ih ⊢
    rw [List.map_cons, List.map_cons, List.sum_cons, ih, List.map_cons, List.sum_cons,
      List.countP_cons]
    cases hp : p r with
    | false => simp [add_assoc]
    | true =>
      simp only [if_true, hg, add_nsmul, one_nsmul]
      rw [add_assoc, add_assoc, add_left_comm a]
      congr 2
      exact add_comm _ _

/-! ## Tables with a key -/

/-- Rows no two of which have the same key. -/
structure Table (R : Type) {K : Type} (key : R → K) where
  rows : List R
  nodup : (rows.map key).Nodup

namespace Table

variable {key : R → K}

def update (t : Table R key) (p : R → Bool) (f : R → R) (hkey : ∀ r, key (f r) = key r) :
    Table R key where
  rows := updateWhere p f t.rows
  nodup := by
    rw [map_updateWhere hkey]
    exact t.nodup

@[simp] theorem rows_update (t : Table R key) (p : R → Bool) (f : R → R)
    (hkey : ∀ r, key (f r) = key r) : (t.update p f hkey).rows = updateWhere p f t.rows := rfl

theorem countP_key [DecidableEq K] (t : Table R key) {q : R → Bool} {r : R} (hr : r ∈ t.rows)
    (hq : q r = true) : (t.rows.filter q).countP (fun r' => key r' = key r) = 1 := by
  have hsub : ((t.rows.filter q).map key).Nodup := t.nodup.sublist (List.filter_sublist.map key)
  have hmem : key r ∈ (t.rows.filter q).map key :=
    List.mem_map_of_mem (List.mem_filter.mpr ⟨hr, hq⟩)
  rw [← List.count_eq_one_of_mem hsub hmem, List.count, List.countP_map]
  refine List.countP_congr fun r' _ => ?_
  simp

theorem eq_of_key (t : Table R key) {r r' : R} (hr : r ∈ t.rows) (hr' : r' ∈ t.rows)
    (h : key r = key r') : r = r' := List.inj_on_of_nodup_map t.nodup hr hr' h

end Table

end CxxLab.Lib
