import Mathlib.Order.Bounds.Defs
import CxxLab.DbLab.Node

/-!
# `db_lab/node.h` — the searches in words

A `Page` has its cells counted in numbers, and `FindCell` of a page is a bisection of numbers. In the
source the bounds are words: their sum is cut off before it is halved, the loop goes on as long as the
two differ, whichever of them is larger, and `CellPtr` makes the position of a cell with a product that
is cut off as well. Both searches throw away the status of the look, so that a cell that does not exist
leaves `it_key` undefined.

None of it matters in a page that has no more cells than there is room for. That is this file: the loop
over words is the one over numbers, and the two searches find what they are for.
-/

set_option autoImplicit false

namespace CxxLab.DbLab

open CxxLab.Lib

/-- `CellPtr`, as the cell it points to. A product that is cut off may be a position in the middle of
a cell, where there is no key. -/
def cellPtr (cellSize cell : UInt32) : Option Nat :=
  let pos := cell * cellSize
  if pos + cellSize ≤ UInt32.ofNat bodySize ∧ pos % cellSize = 0 then some (pos / cellSize).toNat
  else none

/-- The loop of both searches, in so many turns. The look at a cell is `none` where the key is
undefined. -/
def searchCells (look : UInt32 → Option Probe) :
    (turns : Nat) → (minCell maxCell : UInt32) → Option UInt32
  | 0, minCell, maxCell => if minCell = maxCell then some minCell else none
  | turns + 1, minCell, maxCell =>
    if minCell ≠ maxCell then
      let cell := (minCell + maxCell) / 2
      match look cell with
      | none => none
      | some .here => some cell
      | some .left => searchCells look turns minCell cell
      | some .right => searchCells look turns (cell + 1) maxCell
    else some minCell

namespace InternalNode

/-- `InternalNode::GetKey`: what it sets the key to. -/
def getKey (p : Page) (keyNum : UInt32) : Option UInt32 :=
  (cellPtr (.ofNat InternalPage.cellSize) keyNum).map fun i => (p.slots i).key

/-- The turn of `InternalNode::FindCell`. -/
def look (p : Page) (key cell : UInt32) : Option Probe :=
  (getKey p cell).map fun itKey => if itKey ≥ key then .left else .right

/-- `InternalNode::FindCell`. -/
def findCell (turns : Nat) (p : Page) (key : UInt32) : Option UInt32 :=
  searchCells (look p key) turns 0 (.ofNat p.num)

/-- No more keys than there is room for, which do not decrease. -/
structure Ordered (p : Page) : Prop where
  num_le : p.num ≤ InternalPage.maxCells + 1
  keys : ∀ i j, i ≤ j → j < p.num → (p.slots i).key ≤ (p.slots j).key

/-- **The lower bound**: the least index with a key that is not smaller, or the number of keys. -/
def LowerBound (p : Page) (key : UInt32) (i : Nat) : Prop :=
  IsLeast {c : Nat | c < p.num ∧ key ≤ (p.slots c).key} i ∨
    i = p.num ∧ ¬ ∃ c, c < p.num ∧ key ≤ (p.slots c).key

end InternalNode

namespace LeafNode

/-- `LeafNode::GetCellKeyVal`: what it sets the key and the row to. -/
def getCellKeyVal (p : Page) (cellNum : UInt32) : Option LeafCell :=
  (cellPtr (.ofNat LeafPage.cellSize) cellNum).map p.leafCells

/-- The turn of `LeafNode::FindCell`. -/
def look (p : Page) (key cell : UInt32) : Option Probe :=
  (getCellKeyVal p cell).map fun it =>
    if key = it.key then .here else if key < it.key then .left else .right

/-- `LeafNode::FindCell`. -/
def findCell (turns : Nat) (p : Page) (key : UInt32) : Option UInt32 :=
  searchCells (look p key) turns 0 (.ofNat p.num)

/-- No more cells than there is room for, with keys that do not decrease. -/
structure Ordered (p : Page) : Prop where
  num_le : p.num ≤ LeafPage.cellsCapacity
  keys : ∀ i j, i ≤ j → j < p.num → (p.leafCells i).key ≤ (p.leafCells j).key

/-- **The place of a key**: it is in between the cells before it and those from it on, and at a cell
with this key if there is one. -/
structure Place (p : Page) (key : UInt32) (i : Nat) : Prop where
  le_num : i ≤ p.num
  before : ∀ c, c < i → (p.leafCells c).key ≤ key
  behind : ∀ c, i ≤ c → c < p.num → key ≤ (p.leafCells c).key
  hit : (∃ c, c < p.num ∧ (p.leafCells c).key = key) → i < p.num ∧ (p.leafCells i).key = key

end LeafNode

/-! ## Words and numbers -/

/-- A cell in the body is where its number says. -/
theorem cellPtr_of_le {cellSize cell : UInt32} (hpos : 0 < cellSize.toNat)
    (h : cell.toNat * cellSize.toNat + cellSize.toNat ≤ bodySize) :
    cellPtr cellSize cell = some cell.toNat := by
  have hbody : (UInt32.ofNat bodySize).toNat = bodySize := by decide
  have hsmall : bodySize < 2 ^ 32 := by decide
  have hmul : (cell * cellSize).toNat = cell.toNat * cellSize.toNat := by
    rw [UInt32.toNat_mul, Nat.mod_eq_of_lt (by omega)]
  have hend : (cell * cellSize + cellSize).toNat = cell.toNat * cellSize.toNat + cellSize.toNat := by
    rw [UInt32.toNat_add, hmul, Nat.mod_eq_of_lt (by omega)]
  have hfits : cell * cellSize + cellSize ≤ UInt32.ofNat bodySize := by
    rw [UInt32.le_iff_toNat_le, hend, hbody]
    exact h
  have hwhole : cell * cellSize % cellSize = 0 := by
    rw [← UInt32.toNat_inj, UInt32.toNat_mod, hmul, Nat.mul_mod_left]
    rfl
  rw [cellPtr, if_pos ⟨hfits, hwhole⟩, UInt32.toNat_div, hmul, Nat.mul_div_cancel _ hpos]

/-- **The loop over words is the loop over numbers**, as long as the sum of two cells is a word. -/
theorem searchCells_eq {look : UInt32 → Option Probe} {probe : Nat → Option Probe} {n : Nat}
    (hlook : ∀ c : UInt32, c.toNat < n → look c = probe c.toNat) (hn : 2 * n ≤ 2 ^ 32) :
    ∀ (turns : Nat) (lo hi : UInt32), lo.toNat ≤ hi.toNat → hi.toNat ≤ n →
      (searchCells look turns lo hi).map UInt32.toNat = bisect probe turns lo.toNat hi.toNat := by
  intro turns
  induction turns with
  | zero =>
    intro lo hi _ _
    rw [searchCells, bisect]
    by_cases heq : lo = hi
    · rw [if_pos heq, if_pos (congrArg UInt32.toNat heq)]
      rfl
    · rw [if_neg heq, if_neg (fun h => heq (UInt32.toNat_inj.mp h))]
      rfl
  | succ turns ih =>
    intro lo hi hle hhi
    rw [searchCells, bisect]
    by_cases heq : lo = hi
    · rw [if_neg (not_not.mpr heq), if_pos (congrArg UInt32.toNat heq)]
      rfl
    · have hne : lo.toNat ≠ hi.toNat := fun h => heq (UInt32.toNat_inj.mp h)
      have hmid : ((lo + hi) / 2).toNat = (lo.toNat + hi.toNat) / 2 := by
        rw [UInt32.toNat_div, UInt32.toNat_add, Nat.mod_eq_of_lt (by omega)]
        rfl
      have hnext : ((lo + hi) / 2 + 1).toNat = (lo.toNat + hi.toNat) / 2 + 1 := by
        rw [UInt32.toNat_add, hmid, UInt32.toNat_one, Nat.mod_eq_of_lt (by omega)]
      rw [if_pos heq, if_neg hne, ← hmid, ← hlook _ (by omega)]
      dsimp only
      cases look ((lo + hi) / 2) with
      | none => rfl
      | some a =>
        cases a with
        | here => rfl
        | left => exact ih lo _ (by omega) (by omega)
        | right =>
          have hlater := ih ((lo + hi) / 2 + 1) hi (by omega) hhi
          rwa [hnext, ← hmid] at hlater

/-- What is found in numbers is found in words, in as many turns as there are cells or more. -/
theorem exists_searchCells {look : UInt32 → Option Probe} {probe : Nat → Option Probe} {n i : Nat}
    (hlook : ∀ c : UInt32, c.toNat < n → look c = probe c.toNat) (hn : 2 * n < 2 ^ 32)
    (hi : bisect probe n 0 n = some i) :
    ∃ c : UInt32, c.toNat = i ∧ ∀ turns, n ≤ turns →
      searchCells look turns 0 (.ofNat n) = some c := by
  have hword : (UInt32.ofNat n).toNat = n := by
    rw [UInt32.toNat_ofNat', Nat.mod_eq_of_lt (by omega)]
  have hfound : ∀ turns, n ≤ turns →
      ∃ c, searchCells look turns 0 (.ofNat n) = some c ∧ c.toNat = i := by
    intro turns hturns
    have heq := searchCells_eq hlook (Nat.le_of_lt hn) turns 0 (.ofNat n) (Nat.zero_le _)
      (Nat.le_of_eq hword)
    rw [hword, UInt32.toNat_zero, bisect_mono hi hturns] at heq
    exact Option.map_eq_some_iff.mp heq
  obtain ⟨c, -, hc⟩ := hfound n (Nat.le_refl n)
  refine ⟨c, hc, fun turns hturns => ?_⟩
  obtain ⟨c', hrun, hc'⟩ := hfound turns hturns
  rw [hrun, UInt32.toNat_inj.mp (hc'.trans hc.symm)]

/-! ## The two searches -/

namespace InternalNode

variable {p : Page} {key : UInt32}

theorem look_eq (hnum : p.num ≤ InternalPage.maxCells + 1) {cell : UInt32} (h : cell.toNat < p.num) :
    look p key cell = p.internalProbe key cell.toNat := by
  have hok : Page.slotOk cell.toNat = true := (Page.slotOk_iff _).mpr (by omega)
  have hptr : cellPtr (.ofNat InternalPage.cellSize) cell = some cell.toNat :=
    cellPtr_of_le (by decide) (of_decide_eq_true hok)
  rw [look, getKey, hptr, Page.internalProbe, Page.getKey, if_pos hok]
  dsimp only [Option.map]
  split_ifs <;> rfl

theorem exists_findCell (hnum : p.num ≤ InternalPage.maxCells + 1) {i : Nat}
    (hi : p.internalFindCell key = some i) :
    ∃ c : UInt32, c.toNat = i ∧ ∀ turns, p.num ≤ turns → findCell turns p key = some c := by
  have hsmall : InternalPage.maxCells + 1 < 2 ^ 31 := by decide
  exact exists_searchCells (fun _ => look_eq hnum) (by omega) hi

theorem Ordered.exists_lowerBound (h : Ordered p) (key : UInt32) : ∃ i : UInt32,
    (∀ turns, p.num ≤ turns → findCell turns p key = some i) ∧ LowerBound p key i.toNat := by
  obtain ⟨i, hi, hle, hbelow, habove⟩ := Page.internalFindCell_spec key h.num_le h.keys
  obtain ⟨c, rfl, hrun⟩ := exists_findCell h.num_le hi
  refine ⟨c, hrun, ?_⟩
  rcases Nat.lt_or_eq_of_le hle with hlt | heq
  · refine .inl ⟨⟨hlt, habove _ (Nat.le_refl _) hlt⟩, fun j hj => Nat.le_of_not_lt fun hjc => ?_⟩
    exact absurd (hbelow j hjc) (UInt32.not_lt.mpr hj.2)
  · refine .inr ⟨heq, ?_⟩
    rintro ⟨j, hj, hkey⟩
    exact absurd (hbelow j (heq ▸ hj)) (UInt32.not_lt.mpr hkey)

end InternalNode

namespace LeafNode

variable {p : Page} {key : UInt32}

theorem look_eq (hnum : p.num ≤ LeafPage.cellsCapacity) {cell : UInt32} (h : cell.toNat < p.num) :
    look p key cell = p.leafProbe key cell.toNat := by
  have hok : Page.leafCellOk cell.toNat = true := (Page.leafCellOk_iff _).mpr (by omega)
  have hptr : cellPtr (.ofNat LeafPage.cellSize) cell = some cell.toNat :=
    cellPtr_of_le (by decide) (of_decide_eq_true hok)
  rw [look, getCellKeyVal, hptr, Page.leafProbe, Page.getCellKeyVal, if_pos hok]
  dsimp only [Option.map]
  split_ifs <;> rfl

theorem exists_findCell (hnum : p.num ≤ LeafPage.cellsCapacity) {i : Nat}
    (hi : p.leafFindCell key = some i) :
    ∃ c : UInt32, c.toNat = i ∧ ∀ turns, p.num ≤ turns → findCell turns p key = some c := by
  have hsmall : LeafPage.cellsCapacity < 2 ^ 31 := by decide
  exact exists_searchCells (fun _ => look_eq hnum) (by omega) hi

theorem Ordered.exists_place (h : Ordered p) (key : UInt32) : ∃ i : UInt32,
    (∀ turns, p.num ≤ turns → findCell turns p key = some i) ∧ Place p key i.toNat := by
  obtain ⟨i, hi, hle, hbefore, hbehind, hhit⟩ := Page.leafFindCell_spec key h.num_le h.keys
  obtain ⟨c, rfl, hrun⟩ := exists_findCell h.num_le hi
  exact ⟨c, hrun, hle, hbefore, hbehind, hhit⟩

end LeafNode

/-- **Both searches end, on the lower bound and on the place of the key**, without an undefined key,
in as many turns as there are cells at most.

These are the loops on words, with bounds that may wrap around and a product in `CellPtr` that may
be cut off. A cell that is not there has no result, so that there is one says also that none was
looked for. The searches of the table are the same ones (`exists_findCell`). -/
theorem findCell_spec (key : UInt32) :
    (∀ p, InternalNode.Ordered p → ∃ i : UInt32,
      (∀ turns, p.num ≤ turns → InternalNode.findCell turns p key = some i) ∧
        InternalNode.LowerBound p key i.toNat) ∧
    ∀ p, LeafNode.Ordered p → ∃ i : UInt32,
      (∀ turns, p.num ≤ turns → LeafNode.findCell turns p key = some i) ∧
        LeafNode.Place p key i.toNat :=
  ⟨fun _ h => h.exists_lowerBound key, fun _ h => h.exists_place key⟩

/-- Three keys, 10, 20 and 30. -/
def threeKeys : Page where
  parent := 0
  type := .internal
  isRoot := true
  num := 3
  link := 4
  body := .internal fun i => ⟨i + 1, UInt32.ofNat (10 * (i + 1))⟩

/-- Three cells, of which two have the same key. -/
def threeCells : Page where
  parent := 0
  type := .leaf
  isRoot := false
  num := 3
  link := 0
  body := .leaf fun i => ⟨UInt32.ofNat (10 * max 1 i), .zero⟩

theorem findCell_spec_three : InternalNode.Ordered threeKeys ∧ LeafNode.Ordered threeCells ∧
    (∃ i : UInt32, (∀ turns, 3 ≤ turns → InternalNode.findCell turns threeKeys 20 = some i) ∧
      InternalNode.LowerBound threeKeys 20 i.toNat) ∧
    ∃ i : UInt32, (∀ turns, 3 ≤ turns → LeafNode.findCell turns threeCells 20 = some i) ∧
      LeafNode.Place threeCells 20 i.toNat := by
  have hkeys : ∀ j < 3, ∀ i ≤ j, (threeKeys.slots i).key ≤ (threeKeys.slots j).key := by decide
  have hcells : ∀ j < 3, ∀ i ≤ j, (threeCells.leafCells i).key ≤ (threeCells.leafCells j).key := by
    decide
  have hinternal : InternalNode.Ordered threeKeys := ⟨by decide, fun i j hij hj => hkeys j hj i hij⟩
  have hleaf : LeafNode.Ordered threeCells := ⟨by decide, fun i j hij hj => hcells j hj i hij⟩
  exact ⟨hinternal, hleaf, (findCell_spec 20).1 threeKeys hinternal,
    (findCell_spec 20).2 threeCells hleaf⟩

example : InternalNode.findCell 3 threeKeys 20 = some 1 ∧
    LeafNode.findCell 3 threeCells 5 = some 0 := by decide

end CxxLab.DbLab
