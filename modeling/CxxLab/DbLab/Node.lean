import CxxLab.Lib.Bisect
import CxxLab.DbLab.Pager

/-!
# `db_lab/node.h` — the two kinds of page

A page is one 4096-byte block read through two overlaid structs. Both begin with the `Node`
header and two words of their own — `num_cells`/`next_leaf` of a leaf, `num_keys`/`right_child`
of an internal page — and the rest is an array of cells, of 296 bytes in a leaf and of 8 in an
internal page. So `Page` has the header, the two words under neutral names, and a body that is
one array or the other.

The body is a `union` in the source too, and the code changes a page's kind in exactly one
place: `InternalNode::Reset`, which also zeroes the body. That is why `Body` can be an
inductive type: no cell written under one reading is ever read back under the other.

Sizes are computed from the `sizeof`s as the compiler computes them (`#pragma pack(4)` for the
nodes, natural alignment for `UserSchema`), and `CellPtr`'s bound is the source's own
`pos + CellSize <= BodySize`.
-/

set_option autoImplicit false

namespace CxxLab.DbLab

open CxxLab.Lib

/-! ## Rows -/

/-- `UserSchema`: the row, a fixed-layout record. -/
structure UserSchema where
  id : UInt32
  username : Vector UInt8 32
  email : Vector UInt8 255
  deriving DecidableEq

/-- The row a zeroed block of memory holds. -/
def UserSchema.zero : UserSchema := ⟨0, Vector.replicate 32 0, Vector.replicate 255 0⟩

/-- `sizeof(UserSchema)`: 4 + 32 + 255, rounded up to the alignment of `id`. -/
def sizeofUserSchema : Nat := (4 + 32 + 255 + 3) / 4 * 4

/-! ## Layout -/

/-- `sizeof(Node)`: `parent`, `type` and the padded `is_root`. -/
def sizeofNode : Nat := 12

/-- `BodySize`, the same for both kinds: the page less the `Node` and two words. -/
def bodySize : Nat := pageSize - sizeofNode - 8

namespace LeafPage

def cellSize : Nat := 4 + sizeofUserSchema

def cellsCapacity : Nat := bodySize / cellSize

def rightSplitCount : Nat := (cellsCapacity + 1) / 2

def leftSplitCount : Nat := cellsCapacity + 1 - rightSplitCount

end LeafPage

namespace InternalPage

def cellSize : Nat := 4 + 4

def maxCells : Nat := bodySize / cellSize - 1

end InternalPage

@[simp] theorem cellsCapacity_eq : LeafPage.cellsCapacity = 13 := by decide

@[simp] theorem leftSplitCount_eq : LeafPage.leftSplitCount = 7 := by decide

@[simp] theorem rightSplitCount_eq : LeafPage.rightSplitCount = 7 := by decide

@[simp] theorem maxCells_eq : InternalPage.maxCells = 508 := by decide

/-! ## Pages -/

/-- `Node::Type`. -/
inductive NodeType where
  | none
  | internal
  | leaf
  deriving DecidableEq, Repr

/-- A leaf cell: the key, then the row. -/
structure LeafCell where
  key : UInt32
  val : UserSchema
  deriving DecidableEq

/-- An internal cell: the child's page number, then the key. -/
structure InternalCell where
  child : Nat
  key : UInt32
  deriving DecidableEq, Repr

inductive Body where
  | leaf (cells : Nat → LeafCell)
  | internal (cells : Nat → InternalCell)

structure Page where
  parent : Nat
  type : NodeType
  isRoot : Bool
  /-- `leaf_header.num_cells`, or `internal_header.num_keys`. -/
  num : Nat
  /-- `leaf_header.next_leaf`, or `internal_header.right_child`. -/
  link : Nat
  body : Body

/-- What `calloc` gives: every field zero, `type` being `NONE`. -/
def Page.zero : Page :=
  { parent := 0, type := .none, isRoot := false, num := 0, link := 0,
    body := .leaf fun _ => ⟨0, UserSchema.zero⟩ }

/-- `for (i = num; i > index; --i) memcpy(CellPtr(i), CellPtr(i - 1))`, the loop with which both
kinds of page make room for a cell. -/
def shiftUp {α : Type} (index : Nat) : (num : Nat) → (Nat → α) → Nat → α
  | 0, f => f
  | i + 1, f => if i + 1 > index then shiftUp index i (setAt f (i + 1) (f i)) else f

namespace Page

/-- `Node::IsDirty`: the page has been given a kind. -/
def isDirty (p : Page) : Bool := p.type != .none

/-! ### The leaf reading -/

def leafCells (p : Page) : Nat → LeafCell :=
  match p.body with
  | .leaf cells => cells
  | .internal _ => fun _ => ⟨0, UserSchema.zero⟩

def setLeafCells (p : Page) (cells : Nat → LeafCell) : Page := { p with body := .leaf cells }

/-- `LeafNode::CellPtr`: is there a cell `i`? -/
def leafCellOk (i : Nat) : Bool := i * LeafPage.cellSize + LeafPage.cellSize ≤ bodySize

/-- `LeafNode::Reset`. The body is left as it is. -/
def leafReset (p : Page) : Page := { p with type := .leaf, num := 0, link := 0 }

/-- `memcpy(CellPtr(i), src, CellSize)`. -/
def putCell (p : Page) (i : Nat) (c : LeafCell) : Page := p.setLeafCells (setAt p.leafCells i c)

/-- `LeafNode::PutKey`. -/
def putKey (p : Page) (i : Nat) (key : UInt32) : Except StatusType Page :=
  if leafCellOk i then .ok (p.putCell i { p.leafCells i with key := key }) else .error .cellOverflow

/-- `LeafNode::PutVal`. -/
def putVal (p : Page) (i : Nat) (val : UserSchema) : Except StatusType Page :=
  if leafCellOk i then .ok (p.putCell i { p.leafCells i with val := val }) else .error .cellOverflow

/-- `LeafNode::GetCellKeyVal`. -/
def getCellKeyVal (p : Page) (i : Nat) : Except StatusType LeafCell :=
  if leafCellOk i then .ok (p.leafCells i) else .error .cellOverflow

/-- `LeafNode::GetMaxKey`. -/
def leafGetMaxKey (p : Page) : Except StatusType UInt32 :=
  if p.num = 0 then .error .emptyKey else .ok (p.leafCells (p.num - 1)).key

/-- The look of `LeafNode::FindCell` at one cell. A cell out of range leaves `it_key`
uninitialised, which is the `none`. -/
def leafProbe (p : Page) (key : UInt32) (c : Nat) : Option Probe :=
  match p.getCellKeyVal c with
  | .error _ => none
  | .ok cell =>
    if key = cell.key then some .here else if key < cell.key then some .left else some .right

/-- `LeafNode::FindCell`. -/
def leafFindCell (p : Page) (key : UInt32) : Option Nat := bisect (p.leafProbe key) p.num 0 p.num

/-! ### The internal reading -/

def slots (p : Page) : Nat → InternalCell :=
  match p.body with
  | .internal cells => cells
  | .leaf _ => fun _ => ⟨0, 0⟩

def setSlots (p : Page) (cells : Nat → InternalCell) : Page := { p with body := .internal cells }

/-- `InternalNode::CellPtr`: is there a cell `i`? -/
def slotOk (i : Nat) : Bool := i * InternalPage.cellSize + InternalPage.cellSize ≤ bodySize

/-- `InternalNode::Reset`. This is where a page changes its kind, and the body is zeroed. -/
def internalReset (p : Page) : Page :=
  { p with type := .internal, num := 0, body := .internal fun _ => ⟨0, 0⟩ }

/-- `memcpy(CellPtr(i), src, CellSize)`. -/
def putSlot (p : Page) (i : Nat) (c : InternalCell) : Page := p.setSlots (setAt p.slots i c)

/-- `InternalNode::GetChildPageNum`: child `num_keys` is `right_child`. -/
def getChildPageNum (p : Page) (i : Nat) : Except StatusType Nat :=
  if i > p.num then .error .childOverflow
  else if i = p.num then .ok p.link
  else if slotOk i then .ok (p.slots i).child
  else .error .childOverflow

/-- `InternalNode::SetChild`. -/
def setChild (p : Page) (i child : Nat) : Except StatusType Page :=
  if i > p.num then .error .childOverflow
  else if i = p.num then .ok { p with link := child }
  else if slotOk i then .ok (p.putSlot i { p.slots i with child := child })
  else .error .childOverflow

/-- `InternalNode::GetKey`. -/
def getKey (p : Page) (i : Nat) : Except StatusType UInt32 :=
  if slotOk i then .ok (p.slots i).key else .error .keyOverflow

/-- `InternalNode::SetKey`. Nothing compares `i` with `num_keys`. -/
def setKey (p : Page) (i : Nat) (key : UInt32) : Except StatusType Page :=
  if slotOk i then .ok (p.putSlot i { p.slots i with key := key }) else .error .keyOverflow

/-- `InternalNode::GetMaxKey`. -/
def internalGetMaxKey (p : Page) : Except StatusType UInt32 :=
  if p.num = 0 then .error .emptyKey else .ok (p.slots (p.num - 1)).key

/-- The look of `InternalNode::FindCell` at one cell. -/
def internalProbe (p : Page) (key : UInt32) (c : Nat) : Option Probe :=
  match p.getKey c with
  | .error _ => none
  | .ok k => if k ≥ key then some .left else some .right

/-- `InternalNode::FindCell`. -/
def internalFindCell (p : Page) (key : UInt32) : Option Nat :=
  bisect (p.internalProbe key) p.num 0 p.num

/-- `PageHelper::GetMaxKey`. -/
def getMaxKey (p : Page) : Except StatusType UInt32 :=
  match p.type with
  | .internal => p.internalGetMaxKey
  | .leaf => p.leafGetMaxKey
  | .none => .error .pageInvalid

end Page

/-! ## The shift loop -/

/-- The loop moves the cells behind `index` up by one. -/
theorem shiftUp_apply {α : Type} (index : Nat) : ∀ (num : Nat) (f : Nat → α) (j : Nat),
    shiftUp index num f j = if index < j ∧ j ≤ num then f (j - 1) else f j := by
  intro num
  induction num with
  | zero => intro f j; simp [shiftUp]; omega
  | succ i ih =>
    intro f j
    simp only [shiftUp]
    by_cases hi : i + 1 > index
    · rw [if_pos hi, ih]
      by_cases hj : j = i + 1
      · subst hj
        rw [if_neg (by omega), if_pos (by omega), setAt_self, Nat.add_sub_cancel]
      · by_cases hr : index < j ∧ j ≤ i
        · rw [if_pos hr, if_pos (by omega), setAt_of_ne (by omega)]
        · rw [if_neg hr, if_neg (by omega), setAt_of_ne hj]
    · rw [if_neg hi, if_neg (by omega)]

/-! ## Cells, and stores into them -/

namespace Page

@[simp] theorem leafCells_setLeafCells (p : Page) (f : Nat → LeafCell) :
    (p.setLeafCells f).leafCells = f := rfl

@[simp] theorem leafCells_putCell (p : Page) (i : Nat) (c : LeafCell) :
    (p.putCell i c).leafCells = setAt p.leafCells i c := rfl

@[simp] theorem slots_setSlots (p : Page) (f : Nat → InternalCell) : (p.setSlots f).slots = f := rfl

@[simp] theorem slots_putSlot (p : Page) (i : Nat) (c : InternalCell) :
    (p.putSlot i c).slots = setAt p.slots i c := rfl

theorem leafCellOk_iff (i : Nat) : leafCellOk i = true ↔ i < LeafPage.cellsCapacity := by
  simp only [leafCellOk, cellsCapacity_eq, decide_eq_true_eq]
  simp only [LeafPage.cellSize, sizeofUserSchema, bodySize, pageSize, sizeofNode]
  omega

theorem slotOk_iff (i : Nat) : slotOk i = true ↔ i ≤ InternalPage.maxCells := by
  simp only [slotOk, maxCells_eq, decide_eq_true_eq]
  simp only [InternalPage.cellSize, bodySize, pageSize, sizeofNode]
  omega

/-! ## The two searches -/

/-- **`InternalNode::FindCell` is a lower bound**: on keys in order it ends on the first cell
whose key is not below the one looked for. -/
theorem internalFindCell_spec {p : Page} (key : UInt32) (hnum : p.num ≤ InternalPage.maxCells + 1)
    (hkeys : ∀ i j, i ≤ j → j < p.num → (p.slots i).key ≤ (p.slots j).key) :
    ∃ i, p.internalFindCell key = some i ∧ i ≤ p.num ∧ (∀ j, j < i → (p.slots j).key < key) ∧
      ∀ j, i ≤ j → j < p.num → key ≤ (p.slots j).key := by
  have hprobe : ∀ c, c < p.num →
      p.internalProbe key c = if (p.slots c).key ≥ key then some .left else some .right := by
    intro c hc
    simp [internalProbe, getKey, (slotOk_iff c).mpr (by omega)]
  obtain ⟨i, hi, hle, hcase⟩ := bisect_range (p.internalProbe key) (n := p.num)
    (L := fun j => (p.slots j).key < key) (R := fun j => key ≤ (p.slots j).key)
    (fun c hc => by rw [hprobe c hc]; split <;> simp)
    (fun c hc hr j hj => by
      rw [hprobe c hc] at hr
      have := hkeys j c hj hc
      split at hr
      · cases hr
      · grind)
    (fun c hc hl j hj hjn => by
      rw [hprobe c hc] at hl
      have := hkeys c j hj hjn
      split at hl
      · grind
      · cases hl)
  refine ⟨i, hi, hle, ?_⟩
  rcases hcase with ⟨hlt, hhere⟩ | hborder
  · rw [hprobe i hlt] at hhere
    split at hhere <;> cases hhere
  · exact hborder

/-- On keys in any order the search still ends on a cell or behind the last one. -/
theorem internalFindCell_isSome {p : Page} (key : UInt32)
    (hnum : p.num ≤ InternalPage.maxCells + 1) :
    ∃ i, p.internalFindCell key = some i ∧ i ≤ p.num := by
  apply bisect_isSome
  intro c hc
  simp only [internalProbe, getKey, (slotOk_iff c).mpr (by omega), if_true]
  split <;> simp

/-- **`LeafNode::FindCell` finds the key or its place**: on keys in order no cell before the
result has a larger key, no cell from it on has a smaller one, and if the page has the key the
result is a cell that holds it. -/
theorem leafFindCell_spec {p : Page} (key : UInt32) (hnum : p.num ≤ LeafPage.cellsCapacity)
    (hkeys : ∀ i j, i ≤ j → j < p.num → (p.leafCells i).key ≤ (p.leafCells j).key) :
    ∃ i, p.leafFindCell key = some i ∧ i ≤ p.num ∧
      (∀ j, j < i → (p.leafCells j).key ≤ key) ∧
      (∀ j, i ≤ j → j < p.num → key ≤ (p.leafCells j).key) ∧
      ((∃ j, j < p.num ∧ (p.leafCells j).key = key) → i < p.num ∧ (p.leafCells i).key = key) := by
  have hprobe : ∀ c, c < p.num → p.leafProbe key c =
      if key = (p.leafCells c).key then some .here
      else if key < (p.leafCells c).key then some .left else some .right := by
    intro c hc
    simp [leafProbe, getCellKeyVal, (leafCellOk_iff c).mpr (by omega)]
  obtain ⟨i, hi, hle, hcase⟩ := bisect_range (p.leafProbe key) (n := p.num)
    (L := fun j => (p.leafCells j).key < key) (R := fun j => key < (p.leafCells j).key)
    (fun c hc => by rw [hprobe c hc]; split <;> (try split) <;> simp)
    (fun c hc hr j hj => by
      rw [hprobe c hc] at hr
      have := hkeys j c hj hc
      grind)
    (fun c hc hl j hj hjn => by
      rw [hprobe c hc] at hl
      have := hkeys c j hj hjn
      grind)
  refine ⟨i, hi, hle, ?_⟩
  rcases hcase with ⟨hlt, hhere⟩ | ⟨hbelow, habove⟩
  · -- Stopped on a hit.
    have hkey : (p.leafCells i).key = key := by
      rw [hprobe i hlt] at hhere
      grind
    refine ⟨fun j hj => ?_, fun j hj hjn => ?_, fun _ => ⟨hlt, hkey⟩⟩
    · rw [← hkey]; exact hkeys j i (by omega) hlt
    · rw [← hkey]; exact hkeys i j hj hjn
  · -- Stopped on the border, with strictly smaller and strictly larger keys around it.
    refine ⟨fun j hj => UInt32.le_of_lt (hbelow j hj),
      fun j hj hjn => UInt32.le_of_lt (habove j hj hjn), ?_⟩
    rintro ⟨j, hjn, hj⟩
    rcases Nat.lt_or_ge j i with hlt | hge
    · have := hbelow j hlt
      grind
    · have := habove j hge hjn
      grind

end Page

end CxxLab.DbLab
