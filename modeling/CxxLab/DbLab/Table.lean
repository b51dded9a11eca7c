import CxxLab.DbLab.Node

/-!
# `db_lab/table.h` — the table

A table is a tree of pages with its root at page 0: a single leaf at first, and once that is
full an internal page over leaves. The leaves are also chained through `next_leaf`, which is
how a scan walks them.

The code holds raw pointers into pages and mutates them in place. Here a page is named by its
number, `page` reads one through a pointer already in hand (no `GetPage`), and `setPage` stores
it back; the order of the stores is the source's. `STATUS_CHECK` is monadic bind, so a call
that returns a status leaves behind what it had changed up to there.

`InternalPageFind` recurses down the tree without any check that it is a tree. The model gives
it one turn for each page and one more: it changes no page, so a walk that needs more has come
back to a page it has seen, and the call in the source does not return.
-/

set_option autoImplicit false

namespace CxxLab.DbLab

open CxxLab.Lib Exec

structure Table where
  rootPageNum : Nat
  pager : PageArray Page

/-- `Table::Cursor`. -/
structure Cursor where
  pageNum : Nat
  cellNum : Nat
  endOfTable : Bool
  deriving DecidableEq, Repr

/-- Calls on a table. -/
abbrev DbM := Exec Fail Table

namespace Table

/-! ## Pages in hand -/

/-- The page behind a pointer. -/
def page (n : Nat) : DbM Page := do return (← get).pager.pages n

def setPage (n : Nat) (p : Page) : DbM Unit :=
  modify fun t => { t with pager := t.pager.overwrite n p }

/-- `STATUS_CHECK` around a call that returns a status. -/
def check {α : Type} : Except StatusType α → DbM α
  | .ok a => pure a
  | .error s => throw (.status s)

/-- A search that compared an uninitialised key has no result. -/
def found : Option Nat → DbM Nat
  | some i => pure i
  | none => throw .undefined

/-- `pager->GetPage(n)`. -/
def getPage (n : Nat) : DbM Page := do
  if n ≥ maxPages then
    throw .undefined
  modify fun t => { t with pager := t.pager.getPage n }
  page n

/-- `Cursor::GetLeafPage`: a page that has no kind yet becomes an empty leaf. -/
def getLeafPage (n : Nat) : DbM Page := do
  let p ← getPage n
  if p.isDirty then
    return p
  setPage n p.leafReset
  return p.leafReset

/-- `Table::Open` on an empty file. -/
def openEmpty : Table :=
  { rootPageNum := 0
    pager := ({ numPages := 0, pages := fun _ => Page.zero } : PageArray Page).getPage 0
      |>.overwrite 0 { Page.zero.leafReset with isRoot := true } }

/-! ## Splitting -/

/-- `Table::SplitRoot`: the root's contents move to a new left child and the root becomes the
internal page over the two. -/
def splitRoot (rightChildPageNum : Nat) : DbM Unit := do
  let rootPageNum := (← get).rootPageNum
  let leftChildPageNum := (← get).pager.numPages
  let root ← getPage rootPageNum
  let _ ← getPage leftChildPageNum
  let _ ← getPage rightChildPageNum
  unless root.isRoot do throw .assertion
  setPage leftChildPageNum { root with isRoot := false }
  let internalRoot := { root.internalReset with isRoot := true, num := 1 }
  let internalRoot := (internalRoot.setChild 0 leftChildPageNum).toOption.getD internalRoot
  setPage rootPageNum internalRoot
  let leftMaxKey ← check (← page leftChildPageNum).leafGetMaxKey
  let internalRoot ← check (internalRoot.setKey 0 leftMaxKey)
  setPage rootPageNum { internalRoot with link := rightChildPageNum }
  setPage leftChildPageNum { (← page leftChildPageNum) with parent := rootPageNum }
  setPage rightChildPageNum { (← page rightChildPageNum) with parent := rootPageNum }

/-- `Cursor::InsertInternal`. The slot is looked up with the *number* of keys where a key is
meant, and only after that number has been raised over a cell nobody has filled yet. -/
def insertInternal (parent child : Nat) : DbM Unit := do
  let maxKey ← check (← page child).getMaxKey
  let numKeys := (← page parent).num
  setPage parent { (← page parent) with num := numKeys + 1 }
  let index ← found ((← page parent).internalFindCell (UInt32.ofNat numKeys))
  if numKeys ≥ InternalPage.maxCells then
    throw .assertion
  let rightChildPage := (← page parent).link
  let rightChild ← getPage rightChildPage
  let rightChildMaxKey ← check rightChild.getMaxKey
  let p ← page parent
  if maxKey > rightChildMaxKey then
    let p := (p.setKey numKeys rightChildMaxKey).toOption.getD p
    let p := (p.setChild numKeys rightChildPage).toOption.getD p
    setPage parent { p with link := child }
  else
    setPage parent (p.setSlots (shiftUp index numKeys p.slots))
    let p ← check ((← page parent).setKey index maxKey)
    setPage parent p
    let p ← check (p.setChild index child)
    setPage parent p

/-- One turn of the copy loop of `DoInsertAndSplit`, on the full page and the new one: what
`des_page` becomes. -/
def splitCell (cellNum : Nat) (key : UInt32) (row : UserSchema) (i : Nat) (curr des : Page) :
    Except StatusType Page :=
  let n := i % LeafPage.leftSplitCount
  if !Page.leafCellOk n then .error .cellOverflow
  else if i > cellNum then .ok (des.putCell n (curr.leafCells (i - 1)))
  else if i < cellNum then .ok (des.putCell n (curr.leafCells i))
  else do
    let des ← des.putKey n key
    des.putVal n row

/-- The same turn, with the choice of `des_page`. -/
def splitStep (cellNum : Nat) (key : UInt32) (row : UserSchema) (i : Nat) :
    Page × Page → Except StatusType (Page × Page)
  | (curr, next) =>
    if i ≥ LeafPage.leftSplitCount then
      (splitCell cellNum key row i curr next).map fun des => (curr, des)
    else
      (splitCell cellNum key row i curr curr).map fun des => (des, next)

/-- The copy loop, from turn `i` down to turn 0. -/
def splitLoop (cellNum : Nat) (key : UInt32) (row : UserSchema) :
    Nat → Page × Page → Except StatusType (Page × Page)
  | 0, ps => splitStep cellNum key row 0 ps
  | i + 1, ps => do splitLoop cellNum key row i (← splitStep cellNum key row (i + 1) ps)

/-- Stages 1 and 2 of `Cursor::DoInsertAndSplit`: a new leaf is linked in behind the full one
and the cells are dealt out over the two. The result is the number of the new leaf and the
largest key of the old one. -/
def splitLeaf (c : Cursor) (key : UInt32) (row : UserSchema) : DbM (Nat × UInt32) := do
  let nextPageNum := (← get).pager.numPages
  let _ ← getLeafPage nextPageNum
  let curr ← page c.pageNum
  let oldMax ← check curr.leafGetMaxKey
  setPage nextPageNum { (← page nextPageNum) with parent := curr.parent, link := curr.link }
  setPage c.pageNum { curr with link := nextPageNum }
  let (curr, next) ← check
    (splitLoop c.cellNum key row LeafPage.cellsCapacity (← page c.pageNum, ← page nextPageNum))
  setPage c.pageNum { curr with num := LeafPage.leftSplitCount }
  setPage nextPageNum { next with num := LeafPage.rightSplitCount }
  return (nextPageNum, oldMax)

/-- `Cursor::DoInsertAndSplit`. For a leaf that is not the root the new separator is taken from
`PageHelper::GetMaxKey(page)` of the *parent* page. -/
def doInsertAndSplit (c : Cursor) (key : UInt32) (row : UserSchema) : DbM Unit := do
  let (nextPageNum, oldMax) ← splitLeaf c key row
  let curr ← page c.pageNum
  if curr.isRoot then
    splitRoot nextPageNum
  else
    let parent ← getPage curr.parent
    let newMax ← check parent.getMaxKey
    unless parent.type = .internal do throw .assertion
    let oldMaxCell ← found (parent.internalFindCell oldMax)
    setPage curr.parent (← check (parent.setKey oldMaxCell newMax))
    insertInternal curr.parent nextPageNum

/-! ## Inserting -/

/-- `Cursor::ExecuteInsert`. -/
def executeInsert (c : Cursor) (key : UInt32) (row : UserSchema) : DbM Unit := do
  let leaf ← getLeafPage c.pageNum
  if leaf.num ≥ LeafPage.cellsCapacity then
    doInsertAndSplit c key row
  else
    let leaf :=
      if c.cellNum < leaf.num then leaf.setLeafCells (shiftUp c.cellNum leaf.num leaf.leafCells)
      else leaf
    let leaf := { leaf with num := leaf.num + 1 }
    setPage c.pageNum leaf
    let leaf ← check (leaf.putKey c.cellNum key)
    setPage c.pageNum leaf
    setPage c.pageNum (← check (leaf.putVal c.cellNum row))

/-! ## Looking up -/

/-- `Table::LeafPageFind`. -/
def leafPageFind (pageNum : Nat) (leaf : Page) (key : UInt32) : DbM Cursor := do
  let cell ← found (leaf.leafFindCell key)
  return ⟨pageNum, cell, false⟩

/-- `Table::InternalPageFind`. -/
def internalPageFind (key : UInt32) : Nat → Page → DbM Cursor
  | 0, _ => throw .outOfFuel
  | fuel + 1, p => do
    let cellNum ← found (p.internalFindCell key)
    let pageNum ← check (p.getChildPageNum cellNum)
    let subPage ← getPage pageNum
    match subPage.type with
    | .leaf => leafPageFind pageNum subPage key
    | .internal => internalPageFind key fuel subPage
    | .none => throw (.status .pageInvalid)

/-- `Table::Find`: a null pointer for any status. -/
def find (key : UInt32) : DbM (Option Cursor) := do
  let t ← get
  let p ← getPage t.rootPageNum
  match p.type with
  | .internal =>
    tryCatch (some <$> internalPageFind key (t.pager.numPages + 1) p) fun
      | .status _ => pure none
      | e => throw e
  | .leaf => some <$> leafPageFind t.rootPageNum p key
  | .none => return none

/-- `Table::Insert`. -/
def insert (key : UInt32) (row : UserSchema) : DbM Unit := do
  match ← find key with
  | none => throw (.status .keyOverflow)
  | some c => executeInsert c key row

/-! ## Scanning -/

/-- `Cursor::Value`, read as a row. There is no cell past the capacity. -/
def value (c : Cursor) : DbM UserSchema := do
  let leaf ← getLeafPage c.pageNum
  if Page.leafCellOk c.cellNum then
    return (leaf.leafCells c.cellNum).val
  throw .undefined

/-- `Cursor::Advance`. -/
def advance (c : Cursor) : DbM Cursor := do
  if c.endOfTable then
    throw (.status .cursorEndOfFile)
  let leaf ← getLeafPage c.pageNum
  if c.cellNum + 1 ≥ leaf.num then
    if leaf.link = 0 then
      return { c with cellNum := c.cellNum + 1, endOfTable := true }
    return { c with pageNum := leaf.link, cellNum := 0 }
  return { c with cellNum := c.cellNum + 1 }

/-- `Table::StartCursor`. -/
def startCursor : DbM Cursor := do
  match ← find 0 with
  | none => throw .undefined
  | some c =>
    let leaf ← getLeafPage c.pageNum
    return { c with endOfTable := leaf.num = 0 }

/-- The loop of `DumpTree` and `execute_select`: `Value` and `Advance` until `end_of_table`. -/
def scanFrom : Nat → Cursor → DbM (List UserSchema)
  | fuel, c => do
    if c.endOfTable then
      return []
    match fuel with
    | 0 => throw .outOfFuel
    | fuel + 1 =>
      let row ← value c
      let c ← advance c
      return row :: (← scanFrom fuel c)

def scan (fuel : Nat) : DbM (List UserSchema) := do scanFrom fuel (← startCursor)

end Table

end CxxLab.DbLab
