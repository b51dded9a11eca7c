import CxxLab.DbLab.Layout
import CxxLab.DbLab.Leaf

/-!
# `db_lab/table.h` over a file

`Table` has its pages at hand. This is the same code on what it really runs on: a `Pager`, whose pages
are blocks of bytes in memory or in the file, and the accessors of `node.h` on such blocks. A pointer
into a page is good as long as the page is in memory, so `page` and `setPage` ask for that.

`Open` looks at nothing but the page count: with no page in the file it makes the root leaf, and
otherwise it takes the file as it is.
-/

set_option autoImplicit false

namespace CxxLab.DbLab

open CxxLab.Lib Exec

structure FileTable where
  rootPageNum : Nat
  pager : Pager

/-- Calls on a table over a file. -/
abbrev FileM := Exec Fail FileTable

namespace FileTable

/-! ## Pages -/

/-- A call on the pager. -/
def onPager {α : Type} (x : Exec Fail Pager α) : FileM α :=
  ExceptT.mk fun s => ((exec x s.pager).1, { s with pager := (exec x s.pager).2 })

/-- `pager->GetPage(n)`, with every `read` succeeding. -/
def getPage (n : Nat) : FileM Block := onPager (Pager.getPage n true)

/-- The page behind a pointer. -/
def page (n : Nat) : FileM Block := do
  match (← get).pager.pages n with
  | some b => return b
  | none => throw .undefined

/-- Stores through a pointer into a page: what they make of it. -/
def setPage (n : Nat) (b : Block) : FileM Unit := do
  match (← get).pager.pages n with
  | some _ => modify fun s => { s with pager := { s.pager with pages := setAt s.pager.pages n (some b) } }
  | none => throw .undefined

def check {α : Type} : Except Fail α → FileM α
  | .ok a => pure a
  | .error e => throw e

def found : Option Nat → FileM Nat
  | some i => pure i
  | none => throw .undefined

/-- `Cursor::GetLeafPage`. -/
def getLeafPage (n : Nat) : FileM Block := do
  let b ← getPage n
  if b.isDirty then
    return b
  setPage n b.leafReset
  return b.leafReset

/-- `Table::Open`, behind `Pager::Open`. -/
def init : FileM Unit := do
  if (← get).pager.numPages = 0 then
    let b ← getPage 0
    setPage 0 (b.leafReset.setRoot true)

/-- `Table::Open`. -/
def openFile (file : List UInt8) : FileTable :=
  (exec init { rootPageNum := 0, pager := Pager.openFile file }).2

/-- The file behind a table that is gone: its `Pager` closes. -/
def closed (ft : FileTable) : List UInt8 := (ft.pager.close fun _ => true).file

/-! ## Splitting -/

/-- `Table::SplitRoot`. -/
def splitRoot (rightChildPageNum : Nat) : FileM Unit := do
  let rootPageNum := (← get).rootPageNum
  let leftChildPageNum := (← get).pager.numPages
  let root ← getPage rootPageNum
  let _ ← getPage leftChildPageNum
  let _ ← getPage rightChildPageNum
  unless root.isRoot do throw .assertion
  setPage leftChildPageNum (root.setRoot false)
  let internalRoot := (root.internalReset.setRoot true).setNum 1
  let internalRoot := (internalRoot.setChild 0 leftChildPageNum).toOption.getD internalRoot
  setPage rootPageNum internalRoot
  let leftMaxKey ← check (← page leftChildPageNum).leafGetMaxKey
  let internalRoot ← check (internalRoot.setKey 0 leftMaxKey)
  setPage rootPageNum (internalRoot.setLink rightChildPageNum)
  setPage leftChildPageNum ((← page leftChildPageNum).setParentPage rootPageNum)
  setPage rightChildPageNum ((← page rightChildPageNum).setParentPage rootPageNum)

/-- `Cursor::InsertInternal`. -/
def insertInternal (parent child : Nat) : FileM Unit := do
  let maxKey ← check (← page child).getMaxKey
  let numKeys := (← page parent).num
  setPage parent ((← page parent).setNum (numKeys + 1))
  let index ← found ((← page parent).internalFindCell (UInt32.ofNat numKeys))
  if numKeys ≥ InternalPage.maxCells then
    throw .assertion
  let rightChildPage := (← page parent).link
  let rightChild ← getPage rightChildPage
  let rightChildMaxKey ← check rightChild.getMaxKey
  let b ← page parent
  if maxKey > rightChildMaxKey then
    let b := (b.setKey numKeys rightChildMaxKey).toOption.getD b
    let b := (b.setChild numKeys rightChildPage).toOption.getD b
    setPage parent (b.setLink child)
  else
    setPage parent (b.shiftSlots index numKeys)
    let b ← check ((← page parent).setKey index maxKey)
    setPage parent b
    let b ← check (b.setChild index child)
    setPage parent b

/-- One turn of the copy loop of `DoInsertAndSplit`, on the full page and the new one: what
`des_page` becomes. -/
def splitCell (cellNum : Nat) (key : UInt32) (row : Row) (i : Nat) (curr des : Block) :
    Except Fail Block :=
  let n := i % LeafPage.leftSplitCount
  if (Block.leafCellPtr n).isNone then .error (.status .cellOverflow)
  else if i > cellNum then .ok (des.copyLeafCell n curr (i - 1))
  else if i < cellNum then .ok (des.copyLeafCell n curr i)
  else do
    let des ← des.putKey n key
    des.putVal n row

/-- The same turn, with the choice of `des_page`. -/
def splitStep (cellNum : Nat) (key : UInt32) (row : Row) (i : Nat) :
    Block × Block → Except Fail (Block × Block)
  | (curr, next) =>
    if i ≥ LeafPage.leftSplitCount then
      (splitCell cellNum key row i curr next).map fun des => (curr, des)
    else
      (splitCell cellNum key row i curr curr).map fun des => (des, next)

/-- The copy loop, from turn `i` down to turn 0. -/
def splitLoop (cellNum : Nat) (key : UInt32) (row : Row) :
    Nat → Block × Block → Except Fail (Block × Block)
  | 0, bs => splitStep cellNum key row 0 bs
  | i + 1, bs => do splitLoop cellNum key row i (← splitStep cellNum key row (i + 1) bs)

/-- Stages 1 and 2 of `Cursor::DoInsertAndSplit`. -/
def splitLeaf (c : Cursor) (key : UInt32) (row : Row) : FileM (Nat × UInt32) := do
  let nextPageNum := (← get).pager.numPages
  let _ ← getLeafPage nextPageNum
  let curr ← page c.pageNum
  let oldMax ← check curr.leafGetMaxKey
  setPage nextPageNum (((← page nextPageNum).setParentPage curr.parent).setLink curr.link)
  setPage c.pageNum (curr.setLink nextPageNum)
  let (curr, next) ← check
    (splitLoop c.cellNum key row LeafPage.cellsCapacity (← page c.pageNum, ← page nextPageNum))
  setPage c.pageNum (curr.setNum LeafPage.leftSplitCount)
  setPage nextPageNum (next.setNum LeafPage.rightSplitCount)
  return (nextPageNum, oldMax)

/-- `Cursor::DoInsertAndSplit`. -/
def doInsertAndSplit (c : Cursor) (key : UInt32) (row : Row) : FileM Unit := do
  let (nextPageNum, oldMax) ← splitLeaf c key row
  let curr ← page c.pageNum
  if curr.isRoot then
    splitRoot nextPageNum
  else
    let parent ← getPage curr.parent
    let newMax ← check parent.getMaxKey
    unless parent.hasType .internal do throw .assertion
    let oldMaxCell ← found (parent.internalFindCell oldMax)
    setPage curr.parent (← check (parent.setKey oldMaxCell newMax))
    insertInternal curr.parent nextPageNum

/-! ## Inserting -/

/-- `Cursor::ExecuteInsert`. -/
def executeInsert (c : Cursor) (key : UInt32) (row : Row) : FileM Unit := do
  let leaf ← getLeafPage c.pageNum
  if leaf.num ≥ LeafPage.cellsCapacity then
    doInsertAndSplit c key row
  else
    let leaf := if c.cellNum < leaf.num then leaf.shiftLeafCells c.cellNum leaf.num else leaf
    let leaf := leaf.setNum (leaf.num + 1)
    setPage c.pageNum leaf
    let leaf ← check (leaf.putKey c.cellNum key)
    setPage c.pageNum leaf
    setPage c.pageNum (← check (leaf.putVal c.cellNum row))

/-! ## Looking up -/

/-- `Table::LeafPageFind`. -/
def leafPageFind (pageNum : Nat) (leaf : Block) (key : UInt32) : FileM Cursor := do
  let cell ← found (leaf.leafFindCell key)
  return ⟨pageNum, cell, false⟩

/-- `Table::InternalPageFind`. -/
def internalPageFind (key : UInt32) : Nat → Block → FileM Cursor
  | 0, _ => throw .outOfFuel
  | fuel + 1, b => do
    let cellNum ← found (b.internalFindCell key)
    let pageNum ← check (b.getChildPageNum cellNum)
    let subPage ← getPage pageNum
    if subPage.hasType .leaf then leafPageFind pageNum subPage key
    else if subPage.hasType .internal then internalPageFind key fuel subPage
    else throw (.status .pageInvalid)

/-- `Table::Find`. -/
def find (key : UInt32) : FileM (Option Cursor) := do
  let s ← get
  let b ← getPage s.rootPageNum
  if b.hasType .internal then
    tryCatch (some <$> internalPageFind key (s.pager.numPages + 1) b) fun
      | .status _ => pure none
      | e => throw e
  else if b.hasType .leaf then some <$> leafPageFind s.rootPageNum b key
  else return none

/-- `Table::Insert`. -/
def insert (key : UInt32) (row : Row) : FileM Unit := do
  match ← find key with
  | none => throw (.status .keyOverflow)
  | some c => executeInsert c key row

/-! ## Scanning -/

/-- `Cursor::Value`, read as a row. -/
def value (c : Cursor) : FileM Row := do
  let leaf ← getLeafPage c.pageNum
  match Block.leafCellPtr c.cellNum with
  | some off => return Row.format.load leaf (off + 4)
  | none => throw .undefined

/-- `Cursor::Advance`. -/
def advance (c : Cursor) : FileM Cursor := do
  if c.endOfTable then
    throw (.status .cursorEndOfFile)
  let leaf ← getLeafPage c.pageNum
  if c.cellNum + 1 ≥ leaf.num then
    if leaf.link = 0 then
      return { c with cellNum := c.cellNum + 1, endOfTable := true }
    return { c with pageNum := leaf.link, cellNum := 0 }
  return { c with cellNum := c.cellNum + 1 }

/-- `Table::StartCursor`. -/
def startCursor : FileM Cursor := do
  match ← find 0 with
  | none => throw .undefined
  | some c =>
    let leaf ← getLeafPage c.pageNum
    return { c with endOfTable := leaf.num = 0 }

/-- The loop of `execute_select` and of `DumpTree`: the rows, each with the cursor it was found at. -/
def rowsFrom : Nat → Cursor → FileM (List (Cursor × Row))
  | fuel, c => do
    if c.endOfTable then
      return []
    match fuel with
    | 0 => throw .outOfFuel
    | fuel + 1 =>
      let row ← value c
      let next ← advance c
      return (c, row) :: (← rowsFrom fuel next)

/-- `Table::DumpTree`. -/
def dumpTree (fuel : Nat) : FileM (List (Cursor × Row)) := do rowsFrom fuel (← startCursor)

def scan (fuel : Nat) : FileM (List Row) := List.map Prod.snd <$> dumpTree fuel

end FileTable

end CxxLab.DbLab
