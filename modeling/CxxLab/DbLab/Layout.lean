import CxxLab.DbLab.Rows
import CxxLab.Lib.Layout

/-!
# `db_lab/node.h`, byte by byte

What lies in the 4096 bytes of a page: `parent` at 0, `type` at 4, `is_root` at 8 with three bytes of
padding behind it, the two words of the kind at 12 and 16, and the cells from 20 on. The accessors of
`node.h` are here what the compiler makes of them, loads and stores at these offsets.

`Page` is the reading of such a block, and `Shows` says that a block is one. A block shows one page at
most (`Shows.unique`), and each accessor does to the block what its namesake does to the page: that
is the rest of the file. The two readings of the body, as leaf cells and as internal cells, do not
agree on any bytes, so every lemma about a cell says of which kind the page is.
-/

set_option autoImplicit false

namespace CxxLab.DbLab

open CxxLab.Lib

/-! ## The formats -/

/-- The value of a `Node::Type`. -/
def NodeType.code : NodeType → UInt32
  | .none => 0
  | .internal => 1
  | .leaf => 2

/-- A row in a cell. -/
def Row.format : Format Row where
  size := sizeofUserSchema
  encode := Row.serializeTo
  decode bs := (Row.deserializeFrom bs).getD ⟨UserSchema.zero, 0⟩
  length_encode := Row.length_serializeTo
  decode_encode r := by
    have h := Row.deserializeFrom_serializeTo r []
    rw [List.append_nil] at h
    rw [h, Option.getD_some]

/-! ## The accessors -/

namespace Block

def parent (b : Block) : Nat := (Format.u32.load b 0).toNat

/-- `SetParentPage`. -/
def setParentPage (b : Block) (pageNum : Nat) : Block := Format.u32.store b 0 (UInt32.ofNat pageNum)

def hasType (b : Block) (type : NodeType) : Bool := Format.u32.load b 4 = type.code

/-- `SetType`. -/
def setType (b : Block) (type : NodeType) : Block := Format.u32.store b 4 type.code

/-- `IsDirty`. -/
def isDirty (b : Block) : Bool := !b.hasType .none

/-- `IsRoot`. -/
def isRoot (b : Block) : Bool := Format.u8.load b 8 ≠ 0

/-- `SetRoot`. -/
def setRoot (b : Block) (isRoot : Bool) : Block := Format.u8.store b 8 (if isRoot then 1 else 0)

/-- `NumOfCells`, and `NumOfKeys`. -/
def num (b : Block) : Nat := (Format.u32.load b 12).toNat

/-- `SetNumOfCells`, and `SetNumOfKeys`. -/
def setNum (b : Block) (num : Nat) : Block := Format.u32.store b 12 (UInt32.ofNat num)

/-- `GetNextLeaf`, and `RightChildPage`. -/
def link (b : Block) : Nat := (Format.u32.load b 16).toNat

/-- `SetNextLeaf`, and `SetRightChild`. -/
def setLink (b : Block) (pageNum : Nat) : Block := Format.u32.store b 16 (UInt32.ofNat pageNum)

/-! ### Leaf pages -/

def leafCellOff (i : Nat) : Nat := 20 + i * LeafPage.cellSize

/-- `LeafNode::CellPtr`, and `CellKeyPtr`. -/
def leafCellPtr (i : Nat) : Option Nat := if Page.leafCellOk i then some (leafCellOff i) else none

/-- The cell `i` of a leaf. -/
def leafCell (b : Block) (i : Nat) : LeafCell :=
  ⟨Format.u32.load b (leafCellOff i), (Row.format.load b (leafCellOff i + 4)).user⟩

/-- `LeafNode::Reset`. -/
def leafReset (b : Block) : Block := ((b.setType .leaf).setNum 0).setLink 0

/-- `memcpy(des->CellPtr(i), src->CellPtr(j), CellSize)`. -/
def copyLeafCell (des : Block) (i : Nat) (src : Block) (j : Nat) : Block :=
  Layout.blit des (leafCellOff i) (Layout.slice src (leafCellOff j) LeafPage.cellSize)

/-- `LeafNode::PutKey`. -/
def putKey (b : Block) (i : Nat) (key : UInt32) : Except Fail Block :=
  match leafCellPtr i with
  | none => .error (.status .cellOverflow)
  | some off => .ok (Format.u32.store b off key)

/-- `LeafNode::PutVal`. -/
def putVal (b : Block) (i : Nat) (val : Row) : Except Fail Block :=
  match leafCellPtr i with
  | none => .error (.status .cellOverflow)
  | some off => .ok (Row.format.store b (off + 4) val)

/-- `LeafNode::GetMaxKey`. The pointer is not tested. -/
def leafGetMaxKey (b : Block) : Except Fail UInt32 :=
  if b.num = 0 then .error (.status .emptyKey)
  else match leafCellPtr (b.num - 1) with
    | none => .error .undefined
    | some off => .ok (Format.u32.load b off)

/-- The look of `LeafNode::FindCell` at one cell, through `GetCellKeyVal`. -/
def leafProbe (b : Block) (key : UInt32) (c : Nat) : Option Probe :=
  match leafCellPtr c with
  | none => none
  | some off =>
    let itKey := Format.u32.load b off
    if key = itKey then some .here else if key < itKey then some .left else some .right

/-- `LeafNode::FindCell`. -/
def leafFindCell (b : Block) (key : UInt32) : Option Nat := bisect (b.leafProbe key) b.num 0 b.num

/-- The loop of `ExecuteInsert` that makes room for a cell. -/
def shiftLeafCells (index : Nat) : (num : Nat) → Block → Block
  | 0, b => b
  | i + 1, b => if i + 1 > index then shiftLeafCells index i (b.copyLeafCell (i + 1) b i) else b

/-! ### Internal pages -/

def slotOff (i : Nat) : Nat := 20 + i * InternalPage.cellSize

/-- `InternalNode::CellPtr`. -/
def slotPtr (i : Nat) : Option Nat := if Page.slotOk i then some (slotOff i) else none

/-- The cell `i` of an internal page. -/
def slot (b : Block) (i : Nat) : InternalCell :=
  ⟨(Format.u32.load b (slotOff i)).toNat, Format.u32.load b (slotOff i + 4)⟩

/-- `InternalNode::Reset`. -/
def internalReset (b : Block) : Block :=
  Layout.blit ((b.setType .internal).setNum 0) 20 (List.replicate bodySize 0)

/-- `memcpy(CellPtr(i), CellPtr(j), CellSize)`. -/
def copySlot (b : Block) (i j : Nat) : Block :=
  Layout.blit b (slotOff i) (Layout.slice b (slotOff j) InternalPage.cellSize)

/-- `InternalNode::ChildPtr`: where the number of child `i` is. -/
def childPtr (b : Block) (i : Nat) : Option Nat :=
  if i > b.num then none else if i = b.num then some 16 else slotPtr i

/-- `InternalNode::GetChildPageNum`. -/
def getChildPageNum (b : Block) (i : Nat) : Except Fail Nat :=
  match b.childPtr i with
  | none => .error (.status .childOverflow)
  | some off => .ok (Format.u32.load b off).toNat

/-- `InternalNode::SetChild`. -/
def setChild (b : Block) (i child : Nat) : Except Fail Block :=
  match b.childPtr i with
  | none => .error (.status .childOverflow)
  | some off => .ok (Format.u32.store b off (UInt32.ofNat child))

/-- `InternalNode::KeyPtr`. -/
def keyPtr (i : Nat) : Option Nat := (slotPtr i).map (· + 4)

/-- `InternalNode::GetKey`. -/
def getKey (b : Block) (i : Nat) : Except Fail UInt32 :=
  match keyPtr i with
  | none => .error (.status .keyOverflow)
  | some off => .ok (Format.u32.load b off)

/-- `InternalNode::SetKey`. -/
def setKey (b : Block) (i : Nat) (key : UInt32) : Except Fail Block :=
  match keyPtr i with
  | none => .error (.status .keyOverflow)
  | some off => .ok (Format.u32.store b off key)

/-- `InternalNode::GetMaxKey`. The pointer is not tested. -/
def internalGetMaxKey (b : Block) : Except Fail UInt32 :=
  if b.num = 0 then .error (.status .emptyKey)
  else match keyPtr (b.num - 1) with
    | none => .error .undefined
    | some off => .ok (Format.u32.load b off)

/-- The look of `InternalNode::FindCell` at one cell. Without a key `it_key` stays unset. -/
def internalProbe (b : Block) (key : UInt32) (c : Nat) : Option Probe :=
  match b.getKey c with
  | .error _ => none
  | .ok itKey => if itKey ≥ key then some .left else some .right

/-- `InternalNode::FindCell`. -/
def internalFindCell (b : Block) (key : UInt32) : Option Nat :=
  bisect (b.internalProbe key) b.num 0 b.num

/-- The loop of `InsertInternal` that makes room for a cell. -/
def shiftSlots (index : Nat) : (num : Nat) → Block → Block
  | 0, b => b
  | i + 1, b => if i + 1 > index then shiftSlots index i (b.copySlot (i + 1) i) else b

/-- `PageHelper::GetMaxKey`. -/
def getMaxKey (b : Block) : Except Fail UInt32 :=
  if b.hasType .internal then b.internalGetMaxKey
  else if b.hasType .leaf then b.leafGetMaxKey
  else .error (.status .pageInvalid)

/-! ## Which page a block is -/

/-- Two calls end alike: with values that go together, or with the same status. -/
inductive Alike {α β : Type} (R : α → β → Prop) : Except Fail α → Except StatusType β → Prop
  | ok {a : α} {b : β} (h : R a b) : Alike R (.ok a) (.ok b)
  | error (s : StatusType) : Alike R (.error (.status s)) (.error s)

theorem Alike.bind {α β γ δ : Type} {R : α → β → Prop} {R' : γ → δ → Prop} {x : Except Fail α}
    {y : Except StatusType β} {f : α → Except Fail γ} {g : β → Except StatusType δ}
    (h : Alike R x y) (hf : ∀ a b, R a b → y = .ok b → Alike R' (f a) (g b)) :
    Alike R' (x >>= f) (y >>= g) := by
  cases h with
  | ok h => exact hf _ _ h rfl
  | error s => exact .error s

theorem Alike.map {α β γ δ : Type} {R : α → β → Prop} {R' : γ → δ → Prop} {x : Except Fail α}
    {y : Except StatusType β} {f : α → γ} {g : β → δ} (h : Alike R x y)
    (hf : ∀ a b, R a b → R' (f a) (g b)) : Alike R' (x.map f) (y.map g) := by
  cases h with
  | ok h => exact .ok (hf _ _ h)
  | error s => exact .error s

theorem Alike.and {α β : Type} {R : α → β → Prop} {P : β → Prop} {x : Except Fail α}
    {y : Except StatusType β} (h : Alike R x y) (hP : ∀ b, y = .ok b → P b) :
    Alike (fun a b => R a b ∧ P b) x y := by
  cases h with
  | ok h => exact .ok ⟨h, hP _ rfl⟩
  | error s => exact .error s

theorem Alike.getD {α β : Type} {R : α → β → Prop} {x : Except Fail α} {y : Except StatusType β}
    {a : α} {b : β} (h : Alike R x y) (hab : R a b) : R (x.toOption.getD a) (y.toOption.getD b) := by
  cases h with
  | ok h => exact h
  | error s => exact hab

/-- The body, by the kind of the page. A page that has no kind yet is read as a leaf. -/
def body (b : Block) : NodeType → Body
  | .internal => .internal fun i => if Page.slotOk i then b.slot i else ⟨0, 0⟩
  | _ => .leaf fun i => if Page.leafCellOk i then b.leafCell i else ⟨0, UserSchema.zero⟩

/-- The block is this page. -/
structure Shows (b : Block) (p : Page) : Prop where
  parent : b.parent = p.parent
  type : Format.u32.load b 4 = p.type.code
  isRoot : Format.u8.load b 8 = if p.isRoot then 1 else 0
  num : b.num = p.num
  link : b.link = p.link
  body : b.body p.type = p.body

namespace Shows

variable {b : Block} {p q : Page}

/-- **A block is one page at most.** -/
theorem unique (h : b.Shows p) (h' : b.Shows q) : p = q := by
  have htype : p.type = q.type := by
    have := h.type.symm.trans h'.type
    cases hp : p.type <;> cases hq : q.type <;> simp_all [NodeType.code]
  have hroot : p.isRoot = q.isRoot := by
    have := h.isRoot.symm.trans h'.isRoot
    cases hp : p.isRoot <;> cases hq : q.isRoot <;> simp_all
  obtain ⟨_, _, _, _, _, _⟩ := p
  obtain ⟨_, _, _, _, _, _⟩ := q
  cases htype
  cases hroot
  cases h.parent.symm.trans h'.parent
  cases h.num.symm.trans h'.num
  cases h.link.symm.trans h'.link
  cases h.body.symm.trans h'.body
  rfl

end Shows

/-! ### The header -/

theorem toNat_ofNat {n : Nat} (h : n < 2 ^ 32) : (UInt32.ofNat n).toNat = n := by
  rw [UInt32.toNat_ofNat', Nat.mod_eq_of_lt h]

/-- A word of the header beside the field that is set. -/
theorem word_store {α : Type} (F : Format α) {b : Block} {off off' : Nat} {a : α}
    (hn : off + F.size ≤ pageSize) (h : off' + 4 ≤ off ∨ off + F.size ≤ off') :
    (Format.u32.load (F.store b off a) off').toNat = (Format.u32.load b off').toNat :=
  congrArg UInt32.toNat (Format.load_store_of_disjoint Format.u32 F off' hn h)

theorem leafCellOff_le {i : Nat} (h : Page.leafCellOk i = true) :
    leafCellOff i + LeafPage.cellSize ≤ pageSize := by
  simp only [Page.leafCellOk, decide_eq_true_eq] at h
  simp only [leafCellOff, LeafPage.cellSize, sizeofUserSchema, bodySize, pageSize, sizeofNode] at *
  omega

theorem leafCellOff_disjoint {i j : Nat} (h : j ≠ i) :
    leafCellOff j + LeafPage.cellSize ≤ leafCellOff i ∨
      leafCellOff i + LeafPage.cellSize ≤ leafCellOff j := by
  simp only [leafCellOff, LeafPage.cellSize, sizeofUserSchema]
  omega

theorem slotOff_le {i : Nat} (h : Page.slotOk i = true) :
    slotOff i + InternalPage.cellSize ≤ pageSize := by
  simp only [Page.slotOk, decide_eq_true_eq] at h
  simp only [slotOff, InternalPage.cellSize, bodySize, pageSize, sizeofNode] at *
  omega

theorem slotOff_disjoint {i j : Nat} (h : j ≠ i) :
    slotOff j + InternalPage.cellSize ≤ slotOff i ∨
      slotOff i + InternalPage.cellSize ≤ slotOff j := by
  simp only [slotOff, InternalPage.cellSize]
  omega

/-- A cell is beside whatever is written in front of it or behind it. -/
theorem leafCell_blit_of_disjoint {b : Block} {off i : Nat} {bs : List UInt8}
    (hn : off + bs.length ≤ pageSize)
    (h : leafCellOff i + LeafPage.cellSize ≤ off ∨ off + bs.length ≤ leafCellOff i) :
    leafCell (Layout.blit b off bs) i = b.leafCell i := by
  have hkey : leafCellOff i + Format.u32.size ≤ leafCellOff i + LeafPage.cellSize :=
    Nat.add_le_add_left (by decide) _
  have hval : leafCellOff i + 4 + Row.format.size = leafCellOff i + LeafPage.cellSize := rfl
  rw [leafCell, Format.load_blit_of_disjoint _ hn (by omega),
    Format.load_blit_of_disjoint _ hn (by omega), leafCell]

theorem slot_blit_of_disjoint {b : Block} {off i : Nat} {bs : List UInt8}
    (hn : off + bs.length ≤ pageSize)
    (h : slotOff i + InternalPage.cellSize ≤ off ∨ off + bs.length ≤ slotOff i) :
    slot (Layout.blit b off bs) i = b.slot i := by
  have hchild : slotOff i + Format.u32.size ≤ slotOff i + InternalPage.cellSize :=
    Nat.add_le_add_left (by decide) _
  have hkey : slotOff i + 4 + Format.u32.size = slotOff i + InternalPage.cellSize := rfl
  rw [slot, Format.load_blit_of_disjoint _ hn (by omega),
    Format.load_blit_of_disjoint _ hn (by omega), slot]

/-- The cells are behind the header. -/
theorem body_store_of_header {α : Type} (F : Format α) (b : Block) {off : Nat} (a : α)
    (h : off + F.size ≤ 20) : body (F.store b off a) = b.body := by
  have hlen : off + (F.encode a).length ≤ 20 := by rw [F.length_encode]; exact h
  have hn : off + (F.encode a).length ≤ pageSize := Nat.le_trans hlen (by decide)
  funext type
  have hleaf : ∀ i, leafCell (F.store b off a) i = b.leafCell i := fun i =>
    leafCell_blit_of_disjoint hn (Or.inr (Nat.le_trans hlen (Nat.le_add_right _ _)))
  have hslot : ∀ i, slot (F.store b off a) i = b.slot i := fun i =>
    slot_blit_of_disjoint hn (Or.inr (Nat.le_trans hlen (Nat.le_add_right _ _)))
  simp only [body, hleaf, hslot]

namespace Shows

variable {b : Block} {p : Page}

theorem setParentPage (h : b.Shows p) {n : Nat} (hn : n < 2 ^ 32) :
    (b.setParentPage n).Shows { p with parent := n } where
  parent := by rw [Block.parent, Block.setParentPage, Format.load_store _ (by decide), toNat_ofNat hn]
  type := (Format.load_store_of_disjoint _ _ _ (by decide) (by decide)).trans h.type
  isRoot := (Format.load_store_of_disjoint _ _ _ (by decide) (by decide)).trans h.isRoot
  num := (word_store _ (by decide) (by decide)).trans h.num
  link := (word_store _ (by decide) (by decide)).trans h.link
  body := (congrFun (body_store_of_header _ b _ (by decide)) _).trans h.body

theorem setType (h : b.Shows p) (type : NodeType) :
    (b.setType type).Shows { p with type := type, body := b.body type } where
  parent := (word_store _ (by decide) (by decide)).trans h.parent
  type := Format.load_store _ (by decide)
  isRoot := (Format.load_store_of_disjoint _ _ _ (by decide) (by decide)).trans h.isRoot
  num := (word_store _ (by decide) (by decide)).trans h.num
  link := (word_store _ (by decide) (by decide)).trans h.link
  body := congrFun (body_store_of_header _ b _ (by decide)) _

theorem setRoot (h : b.Shows p) (r : Bool) : (b.setRoot r).Shows { p with isRoot := r } where
  parent := (word_store _ (by decide) (by decide)).trans h.parent
  type := (Format.load_store_of_disjoint _ _ _ (by decide) (by decide)).trans h.type
  isRoot := Format.load_store _ (by decide)
  num := (word_store _ (by decide) (by decide)).trans h.num
  link := (word_store _ (by decide) (by decide)).trans h.link
  body := (congrFun (body_store_of_header _ b _ (by decide)) _).trans h.body

theorem setNum (h : b.Shows p) {n : Nat} (hn : n < 2 ^ 32) :
    (b.setNum n).Shows { p with num := n } where
  parent := (word_store _ (by decide) (by decide)).trans h.parent
  type := (Format.load_store_of_disjoint _ _ _ (by decide) (by decide)).trans h.type
  isRoot := (Format.load_store_of_disjoint _ _ _ (by decide) (by decide)).trans h.isRoot
  num := by rw [Block.num, Block.setNum, Format.load_store _ (by decide), toNat_ofNat hn]
  link := (word_store _ (by decide) (by decide)).trans h.link
  body := (congrFun (body_store_of_header _ b _ (by decide)) _).trans h.body

theorem setLink (h : b.Shows p) {n : Nat} (hn : n < 2 ^ 32) :
    (b.setLink n).Shows { p with link := n } where
  parent := (word_store _ (by decide) (by decide)).trans h.parent
  type := (Format.load_store_of_disjoint _ _ _ (by decide) (by decide)).trans h.type
  isRoot := (Format.load_store_of_disjoint _ _ _ (by decide) (by decide)).trans h.isRoot
  num := (word_store _ (by decide) (by decide)).trans h.num
  link := by rw [Block.link, Block.setLink, Format.load_store _ (by decide), toNat_ofNat hn]
  body := (congrFun (body_store_of_header _ b _ (by decide)) _).trans h.body

theorem link_lt (h : b.Shows p) : p.link < 2 ^ 32 := h.link ▸ UInt32.toNat_lt _

theorem parent_lt (h : b.Shows p) : p.parent < 2 ^ 32 := h.parent ▸ UInt32.toNat_lt _

theorem hasType (h : b.Shows p) (type : NodeType) : b.hasType type = decide (p.type = type) := by
  rw [Block.hasType, h.type]
  cases p.type <;> cases type <;> decide

theorem isDirty (h : b.Shows p) : b.isDirty = p.isDirty := by
  rw [Block.isDirty, h.hasType, Page.isDirty]
  cases p.type <;> rfl

theorem isRoot_eq (h : b.Shows p) : Block.isRoot b = p.isRoot := by
  rw [Block.isRoot, h.isRoot]
  cases p.isRoot <;> decide

/-- The reading of a body does not depend on the kind, as long as it is not internal. -/
theorem leafReset (h : b.Shows p) (hkind : p.type ≠ .internal) :
    b.leafReset.Shows p.leafReset := by
  have hbody : b.body .leaf = p.body := by
    rw [← h.body]
    cases hp : p.type with
    | internal => exact absurd hp hkind
    | leaf => rfl
    | none => rfl
  have hreset := ((h.setType .leaf).setNum (n := 0) (by decide)).setLink (n := 0) (by decide)
  rw [hbody] at hreset
  exact hreset

/-- Writing behind the header changes only the body. -/
theorem of_body (h : b.Shows p) {off : Nat} {bs : List UInt8} (hoff : 20 ≤ off)
    (hn : off + bs.length ≤ pageSize) {body : Body}
    (hbody : Block.body (Layout.blit b off bs) p.type = body) :
    Shows (Layout.blit b off bs) { p with body := body } where
  parent := (congrArg UInt32.toNat
    (Format.load_blit_of_disjoint _ hn (Or.inl (Nat.le_trans (by decide) hoff)))).trans h.parent
  type := (Format.load_blit_of_disjoint _ hn (Or.inl (Nat.le_trans (by decide) hoff))).trans h.type
  isRoot :=
    (Format.load_blit_of_disjoint _ hn (Or.inl (Nat.le_trans (by decide) hoff))).trans h.isRoot
  num := (congrArg UInt32.toNat
    (Format.load_blit_of_disjoint _ hn (Or.inl (Nat.le_trans (by decide) hoff)))).trans h.num
  link := (congrArg UInt32.toNat
    (Format.load_blit_of_disjoint _ hn (Or.inl (Nat.le_trans (by decide) hoff)))).trans h.link
  body := hbody

/-! ### Leaf cells -/

theorem leafCells (h : b.Shows p) (hkind : p.type ≠ .internal) :
    p.leafCells = fun i => if Page.leafCellOk i then b.leafCell i else ⟨0, UserSchema.zero⟩ := by
  rw [Page.leafCells, ← h.body]
  cases hp : p.type with
  | internal => exact absurd hp hkind
  | leaf => rfl
  | none => rfl

theorem leafCell (h : b.Shows p) (hkind : p.type ≠ .internal) {i : Nat}
    (hi : Page.leafCellOk i = true) : b.leafCell i = p.leafCells i := by
  rw [h.leafCells hkind]
  exact (if_pos hi).symm

/-- Writing inside one cell. -/
theorem putCell (h : b.Shows p) (hkind : p.type ≠ .internal) {i k : Nat} {bs : List UInt8}
    {c : LeafCell} (hi : Page.leafCellOk i = true) (hk : k + bs.length ≤ LeafPage.cellSize)
    (hc : Block.leafCell (Layout.blit b (leafCellOff i + k) bs) i = c) :
    Shows (Layout.blit b (leafCellOff i + k) bs) (p.putCell i c) := by
  have hoff : 20 ≤ leafCellOff i := Nat.le_add_right _ _
  have hend := leafCellOff_le hi
  refine h.of_body (by omega) (by omega) ?_
  have hcells : ∀ j, (if Page.leafCellOk j then
      Block.leafCell (Layout.blit b (leafCellOff i + k) bs) j else ⟨0, UserSchema.zero⟩) =
        setAt p.leafCells i c j := by
    intro j
    by_cases hj : j = i
    · rw [hj, setAt_self, if_pos hi, hc]
    · have hdisj := leafCellOff_disjoint hj
      rw [setAt_of_ne hj, h.leafCells hkind, leafCell_blit_of_disjoint (by omega) (by omega)]
  rw [← funext hcells, Block.body.eq_def]
  cases hp : p.type with
  | internal => exact absurd hp hkind
  | leaf => rfl
  | none => rfl

theorem copyLeafCell {src : Block} {q : Page} (h : b.Shows p) (hkind : p.type ≠ .internal)
    (hq : src.Shows q) (hkindq : q.type ≠ .internal) {i j : Nat} (hi : Page.leafCellOk i = true)
    (hj : Page.leafCellOk j = true) :
    (b.copyLeafCell i src j).Shows (p.putCell i (q.leafCells j)) := by
  have hend := leafCellOff_le hi
  refine h.putCell (k := 0) hkind hi (by rw [Layout.length_slice]; omega) ?_
  rw [← hq.leafCell hkindq hj]
  simp only [Block.leafCell, Nat.add_zero]
  have hkey := Format.load_copy Format.u32 (m := b) (k := 0) src (leafCellOff j) hend
    (by decide)
  have hval := Format.load_copy Row.format (m := b) (k := 4) src (leafCellOff j) hend
    (by decide)
  rw [Nat.add_zero, Nat.add_zero] at hkey
  rw [hkey, hval]

theorem putKey (h : b.Shows p) (hkind : p.type ≠ .internal) (i : Nat) (key : UInt32) :
    Alike Shows (b.putKey i key) (p.putKey i key) := by
  rw [Block.putKey, Page.putKey, leafCellPtr]
  by_cases hi : Page.leafCellOk i = true
  · rw [if_pos hi, if_pos hi]
    have hfit : leafCellOff i + Format.u32.size ≤ pageSize := Nat.le_trans
      (Nat.add_le_add_left (by decide) _) (leafCellOff_le hi)
    have hkey := Format.load_store Format.u32 (m := b) (a := key) hfit
    have hval := Format.load_store_of_disjoint Row.format Format.u32 (m := b) (b := key)
      (leafCellOff i + 4) hfit (Or.inr (Nat.le_refl _))
    rw [Format.store] at hkey hval
    refine .ok (h.putCell (k := 0) hkind hi (by rw [Format.u32.length_encode]; decide) ?_)
    rw [← h.leafCell hkind hi, Block.leafCell, Nat.add_zero, hkey, hval, Block.leafCell]
  · rw [if_neg hi, if_neg hi]
    exact .error _

theorem putVal (h : b.Shows p) (hkind : p.type ≠ .internal) (i : Nat) (val : Row) :
    Alike Shows (b.putVal i val) (p.putVal i val.user) := by
  rw [Block.putVal, Page.putVal, leafCellPtr]
  by_cases hi : Page.leafCellOk i = true
  · rw [if_pos hi, if_pos hi]
    have hend := leafCellOff_le hi
    have hkey := Format.load_store_of_disjoint Format.u32 Row.format (m := b) (b := val)
      (leafCellOff i) hend (Or.inl (Nat.le_refl _))
    have hval := Format.load_store Row.format (m := b) (a := val) hend
    rw [Format.store] at hkey hval
    refine .ok (h.putCell hkind hi (by rw [Row.format.length_encode]; decide) ?_)
    rw [← h.leafCell hkind hi, Block.leafCell, hkey, hval, Block.leafCell]
  · rw [if_neg hi, if_neg hi]
    exact .error _

theorem leafGetMaxKey (h : b.Shows p) (hkind : p.type ≠ .internal)
    (hnum : p.num ≤ LeafPage.cellsCapacity) : Alike Eq b.leafGetMaxKey p.leafGetMaxKey := by
  rw [Block.leafGetMaxKey, Page.leafGetMaxKey, h.num]
  split
  · exact .error _
  · have hlast : Page.leafCellOk (p.num - 1) = true := (Page.leafCellOk_iff _).mpr (by omega)
    rw [leafCellPtr, if_pos hlast, ← h.leafCell hkind hlast]
    exact .ok rfl

theorem leafFindCell (h : b.Shows p) (hkind : p.type ≠ .internal) (key : UInt32) :
    b.leafFindCell key = p.leafFindCell key := by
  have hprobe : b.leafProbe key = p.leafProbe key := by
    funext c
    rw [leafProbe, Page.leafProbe, leafCellPtr, Page.getCellKeyVal]
    split
    · rename_i hnone
      split at hnone
      · cases hnone
      · rename_i hc
        rw [if_neg hc]
    · rename_i off hsome
      split at hsome
      · rename_i hc
        cases hsome
        rw [if_pos hc, ← h.leafCell hkind hc]
        rfl
      · cases hsome
  rw [Block.leafFindCell, Page.leafFindCell, hprobe, h.num]

theorem setLeafCells_self (h : b.Shows p) (hkind : p.type ≠ .internal) :
    p.setLeafCells p.leafCells = p := by
  have hbody : p.body = .leaf p.leafCells := by
    rw [h.leafCells hkind, ← h.body]
    cases hp : p.type with
    | internal => exact absurd hp hkind
    | leaf => rfl
    | none => rfl
  rw [Page.setLeafCells, ← hbody]

/-- The loop that makes room in a leaf. -/
theorem shiftLeafCells (index : Nat) : ∀ (num : Nat) {b : Block} {p : Page}, b.Shows p →
    p.type ≠ .internal → Page.leafCellOk num = true →
      (b.shiftLeafCells index num).Shows (p.setLeafCells (shiftUp index num p.leafCells)) := by
  intro num
  induction num with
  | zero =>
    intro b p h hkind _
    rw [Block.shiftLeafCells, shiftUp, h.setLeafCells_self hkind]
    exact h
  | succ i ih =>
    intro b p h hkind hok
    have hi : Page.leafCellOk i = true :=
      (Page.leafCellOk_iff i).mpr (Nat.lt_of_succ_lt ((Page.leafCellOk_iff (i + 1)).mp hok))
    rw [Block.shiftLeafCells, shiftUp]
    split
    · exact ih (h.copyLeafCell hkind h hkind hok hi) hkind hi
    · rw [h.setLeafCells_self hkind]
      exact h

/-! ### Internal cells -/

theorem slots (h : b.Shows p) (hkind : p.type = .internal) :
    p.slots = fun i => if Page.slotOk i then b.slot i else ⟨0, 0⟩ := by
  rw [Page.slots, ← h.body, hkind]
  rfl

theorem slot (h : b.Shows p) (hkind : p.type = .internal) {i : Nat} (hi : Page.slotOk i = true) :
    b.slot i = p.slots i := by
  rw [h.slots hkind]
  exact (if_pos hi).symm

/-- Writing inside one cell. -/
theorem putSlot (h : b.Shows p) (hkind : p.type = .internal) {i k : Nat} {bs : List UInt8}
    {c : InternalCell} (hi : Page.slotOk i = true) (hk : k + bs.length ≤ InternalPage.cellSize)
    (hc : Block.slot (Layout.blit b (slotOff i + k) bs) i = c) :
    Shows (Layout.blit b (slotOff i + k) bs) (p.putSlot i c) := by
  have hoff : 20 ≤ slotOff i := Nat.le_add_right _ _
  have hend := slotOff_le hi
  refine h.of_body (by omega) (by omega) ?_
  have hcells : ∀ j, (if Page.slotOk j then
      Block.slot (Layout.blit b (slotOff i + k) bs) j else ⟨0, 0⟩) = setAt p.slots i c j := by
    intro j
    by_cases hj : j = i
    · rw [hj, setAt_self, if_pos hi, hc]
    · have hdisj := slotOff_disjoint hj
      rw [setAt_of_ne hj, h.slots hkind, slot_blit_of_disjoint (by omega) (by omega)]
  rw [← funext hcells, Block.body.eq_def, hkind]

theorem copySlot (h : b.Shows p) (hkind : p.type = .internal) {i j : Nat}
    (hi : Page.slotOk i = true) (hj : Page.slotOk j = true) :
    (b.copySlot i j).Shows (p.putSlot i (p.slots j)) := by
  have hend := slotOff_le hi
  refine h.putSlot (k := 0) hkind hi (by rw [Layout.length_slice]; omega) ?_
  rw [← h.slot hkind hj]
  simp only [Block.slot, Nat.add_zero]
  have hchild := Format.load_copy Format.u32 (m := b) (k := 0) b (slotOff j) hend
    (by decide)
  have hkey := Format.load_copy Format.u32 (m := b) (k := 4) b (slotOff j) hend
    (by decide)
  rw [Nat.add_zero, Nat.add_zero] at hchild
  rw [hchild, hkey]

theorem getKey (h : b.Shows p) (hkind : p.type = .internal) (i : Nat) :
    Alike Eq (b.getKey i) (p.getKey i) := by
  rw [Block.getKey, Page.getKey, keyPtr, slotPtr]
  by_cases hi : Page.slotOk i = true
  · rw [if_pos hi, if_pos hi, ← h.slot hkind hi]
    exact .ok rfl
  · rw [if_neg hi, if_neg hi]
    exact .error _

theorem setKey (h : b.Shows p) (hkind : p.type = .internal) (i : Nat) (key : UInt32) :
    Alike Shows (b.setKey i key) (p.setKey i key) := by
  rw [Block.setKey, Page.setKey, keyPtr, slotPtr]
  by_cases hi : Page.slotOk i = true
  · rw [if_pos hi, if_pos hi]
    have hend := slotOff_le hi
    have hkey := Format.load_store Format.u32 (m := b) (a := key) hend
    have hchild := Format.load_store_of_disjoint Format.u32 Format.u32 (m := b) (b := key)
      (slotOff i) hend (Or.inl (Nat.le_refl _))
    rw [Format.store] at hkey hchild
    refine .ok (h.putSlot hkind hi (by rw [Format.u32.length_encode]; decide) ?_)
    rw [← h.slot hkind hi, Block.slot, hkey, hchild, Block.slot]
  · rw [if_neg hi, if_neg hi]
    exact .error _

theorem childPtr (h : b.Shows p) (i : Nat) : b.childPtr i =
    if i > p.num then none else if i = p.num then some 16 else slotPtr i := by
  rw [Block.childPtr, h.num]

theorem getChildPageNum (h : b.Shows p) (hkind : p.type = .internal) (i : Nat) :
    Alike Eq (b.getChildPageNum i) (p.getChildPageNum i) := by
  rw [Block.getChildPageNum, Page.getChildPageNum, h.childPtr, slotPtr]
  by_cases hgt : i > p.num
  · rw [if_pos hgt, if_pos hgt]
    exact .error _
  · rw [if_neg hgt, if_neg hgt]
    by_cases hlast : i = p.num
    · rw [if_pos hlast, if_pos hlast]
      exact .ok h.link
    · rw [if_neg hlast, if_neg hlast]
      by_cases hi : Page.slotOk i = true
      · rw [if_pos hi, if_pos hi, ← h.slot hkind hi]
        exact .ok rfl
      · rw [if_neg hi, if_neg hi]
        exact .error _

theorem setChild (h : b.Shows p) (hkind : p.type = .internal) (i : Nat) {child : Nat}
    (hchild : child < 2 ^ 32) : Alike Shows (b.setChild i child) (p.setChild i child) := by
  rw [Block.setChild, Page.setChild, h.childPtr, slotPtr]
  by_cases hgt : i > p.num
  · rw [if_pos hgt, if_pos hgt]
    exact .error _
  · rw [if_neg hgt, if_neg hgt]
    by_cases hlast : i = p.num
    · rw [if_pos hlast, if_pos hlast]
      exact .ok (h.setLink hchild)
    · rw [if_neg hlast, if_neg hlast]
      by_cases hi : Page.slotOk i = true
      · rw [if_pos hi, if_pos hi]
        have hend : slotOff i + Format.u32.size ≤ pageSize := Nat.le_trans
          (Nat.add_le_add_left (by decide) _) (slotOff_le hi)
        have hload := Format.load_store Format.u32 (m := b) (a := UInt32.ofNat child) hend
        have hkey := Format.load_store_of_disjoint Format.u32 Format.u32 (m := b)
          (b := UInt32.ofNat child) (slotOff i + 4) hend (Or.inr (Nat.le_refl _))
        rw [Format.store] at hload hkey
        refine .ok (h.putSlot (k := 0) hkind hi (by rw [Format.u32.length_encode]; decide) ?_)
        rw [← h.slot hkind hi, Block.slot, Nat.add_zero, hload, hkey, toNat_ofNat hchild, Block.slot]
      · rw [if_neg hi, if_neg hi]
        exact .error _

theorem internalGetMaxKey (h : b.Shows p) (hkind : p.type = .internal)
    (hnum : p.num ≤ InternalPage.maxCells + 1) :
    Alike Eq b.internalGetMaxKey p.internalGetMaxKey := by
  rw [Block.internalGetMaxKey, Page.internalGetMaxKey, h.num]
  split
  · exact .error _
  · have hlast : Page.slotOk (p.num - 1) = true := (Page.slotOk_iff _).mpr (by omega)
    rw [keyPtr, slotPtr, if_pos hlast, ← h.slot hkind hlast]
    exact .ok rfl

theorem internalFindCell (h : b.Shows p) (hkind : p.type = .internal) (key : UInt32) :
    b.internalFindCell key = p.internalFindCell key := by
  have hprobe : b.internalProbe key = p.internalProbe key := by
    funext c
    rw [internalProbe, Page.internalProbe]
    have hkey := h.getKey hkind c
    revert hkey
    generalize b.getKey c = x
    generalize p.getKey c = y
    rintro (⟨rfl⟩ | s) <;> rfl
  rw [Block.internalFindCell, Page.internalFindCell, hprobe, h.num]

theorem setSlots_self (h : b.Shows p) (hkind : p.type = .internal) : p.setSlots p.slots = p := by
  have hbody : p.body = .internal p.slots := by
    rw [h.slots hkind, ← h.body, hkind]
    rfl
  rw [Page.setSlots, ← hbody]

/-- The loop that makes room in an internal page. -/
theorem shiftSlots (index : Nat) : ∀ (num : Nat) {b : Block} {p : Page}, b.Shows p →
    p.type = .internal → Page.slotOk num = true →
      (b.shiftSlots index num).Shows (p.setSlots (shiftUp index num p.slots)) := by
  intro num
  induction num with
  | zero =>
    intro b p h hkind _
    rw [Block.shiftSlots, shiftUp, h.setSlots_self hkind]
    exact h
  | succ i ih =>
    intro b p h hkind hok
    have hi : Page.slotOk i = true :=
      (Page.slotOk_iff i).mpr (Nat.le_of_succ_le ((Page.slotOk_iff (i + 1)).mp hok))
    rw [Block.shiftSlots, shiftUp]
    split
    · exact ih (h.copySlot hkind hok hi) hkind hi
    · rw [h.setSlots_self hkind]
      exact h

/-- A page that becomes internal is blank. -/
theorem internalReset (h : b.Shows p) : b.internalReset.Shows p.internalReset := by
  refine ((h.setType .internal).setNum (n := 0) (by decide)).of_body (Nat.le_refl _)
    (by rw [List.length_replicate]; decide) ?_
  have hslot : ∀ m : Block, (fun i => if Page.slotOk i then
      Block.slot (Layout.blit m 20 (List.replicate bodySize 0)) i else ⟨0, 0⟩) = fun _ => ⟨0, 0⟩ := by
    intro m
    funext i
    split
    · rename_i hi
      have hend := slotOff_le hi
      have hfit : 20 + bodySize = pageSize := rfl
      have hcell : InternalPage.cellSize = 8 := rfl
      have hword : Format.u32.size = 4 := rfl
      have hoff : slotOff i = 20 + i * InternalPage.cellSize := rfl
      rw [Block.slot, hoff, Format.load_blit_replicate _ (by decide) (by omega), Nat.add_assoc,
        Format.load_blit_replicate _ (by decide) (by omega)]
      rfl
    · rfl
  rw [Block.body, hslot]

theorem getMaxKey (h : b.Shows p) (hleaf : p.type = .leaf → p.num ≤ LeafPage.cellsCapacity)
    (hinternal : p.type = .internal → p.num ≤ InternalPage.maxCells + 1) :
    Alike Eq b.getMaxKey p.getMaxKey := by
  rw [Block.getMaxKey, h.hasType, h.hasType, Page.getMaxKey]
  cases hp : p.type with
  | internal => exact h.internalGetMaxKey hp (hinternal hp)
  | leaf => exact h.leafGetMaxKey (by rw [hp]; decide) (hleaf hp)
  | none => exact .error _

end Shows

/-- The row in zeroed memory. -/
theorem decode_row_zero :
    (Row.format.decode (List.replicate Row.format.size 0)).user = UserSchema.zero := by
  have hlen : ¬ (List.replicate Row.format.size (0 : UInt8)).length < sizeofUserSchema := by
    rw [List.length_replicate]
    decide
  have hbytes : ∀ off n, Row.bytesAt (List.replicate Row.format.size 0) off n =
      Vector.replicate n 0 := by
    intro off n
    apply Vector.ext
    intro i hi
    have hget : (Row.bytesAt (List.replicate Row.format.size 0) off n)[i] =
        (List.replicate Row.format.size (0 : UInt8)).getD (off + i) 0 := Vector.getElem_ofFn hi
    rw [hget, List.getD_eq_getElem?_getD, List.getElem?_replicate, Vector.getElem_replicate]
    split <;> rfl
  show ((Row.deserializeFrom (List.replicate Row.format.size 0)).getD ⟨UserSchema.zero, 0⟩).user = _
  rw [Row.deserializeFrom, if_neg hlen, Option.getD_some]
  simp only [hbytes]
  rfl

/-- Memory from `calloc` is a page without a kind. -/
theorem shows_zero : Block.zero.Shows Page.zero := by
  have hword : ∀ off, Format.u32.load Block.zero off = 0 := fun off =>
    Format.load_replicate Format.u32 off
  have hrow : ∀ off, (Row.format.load Block.zero off).user = UserSchema.zero := by
    intro off
    rw [Block.zero, Format.load_replicate, decode_row_zero]
  refine ⟨congrArg _ (hword 0), hword 4, Format.load_replicate Format.u8 8, congrArg _ (hword 12),
    congrArg _ (hword 16), ?_⟩
  have hcell : ∀ i, leafCell Block.zero i = ⟨0, UserSchema.zero⟩ := by
    intro i
    rw [leafCell, hword, hrow]
  rw [body.eq_def]
  simp only [hcell, ite_self]
  rfl

end Block

end CxxLab.DbLab
