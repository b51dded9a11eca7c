import CxxLab.DbLab.Table

/-!
# Leaf pages as lists

What `Table` does to one leaf, said about the list of its cells. `HasCells` reads a page as a
list; on a list with its keys in order `FindCell` is a cut (`HasCells.findCell`), making room
and storing is insertion at the cut (`HasCells.of_insertAt`), and the copy loop of
`DoInsertAndSplit` deals that same insertion out over two pages (`splitLoop_eq`).

The tree proofs see a leaf only through these lemmas.
-/

set_option autoImplicit false

namespace CxxLab.DbLab

open CxxLab.Lib Exec

/-- Keys in strictly ascending order. -/
def KeysSorted (L : List LeafCell) : Prop := L.Pairwise fun a b => a.key < b.key

/-- The key of the last cell. -/
def lastKey (L : List LeafCell) : UInt32 := (L.getLastD ⟨0, UserSchema.zero⟩).key

/-- The cells of a page, read as a leaf, are this list. -/
structure Page.HasCells (p : Page) (L : List LeafCell) : Prop where
  num : p.num = L.length
  cell : ∀ i (h : i < L.length), p.leafCells i = L[i]

/-- The array `f` with `c` inserted at `i`. -/
def insertAt (f : Nat → LeafCell) (i : Nat) (c : LeafCell) (j : Nat) : LeafCell :=
  if j < i then f j else if j = i then c else f (j - 1)

namespace Page.HasCells

variable {p : Page} {L : List LeafCell}

theorem key_lt (h : p.HasCells L) (hs : KeysSorted L) {i j : Nat} (hij : i < j) (hj : j < p.num) :
    (p.leafCells i).key < (p.leafCells j).key := by
  rw [h.num] at hj
  rw [h.cell i (by omega), h.cell j hj]
  exact List.pairwise_iff_getElem.mp hs i j (by omega) hj hij

/-- **`FindCell` cuts the list at the key.** -/
theorem findCell (h : p.HasCells L) (hs : KeysSorted L) (hlen : L.length ≤ LeafPage.cellsCapacity)
    (key : UInt32) :
    ∃ L₁ L₂, L = L₁ ++ L₂ ∧ p.leafFindCell key = some L₁.length ∧
      (∀ c ∈ L₁, c.key < key) ∧ ∀ c ∈ L₂, key ≤ c.key := by
  have hkeys : ∀ i j, i ≤ j → j < p.num → (p.leafCells i).key ≤ (p.leafCells j).key := by
    intro i j hij hj
    rcases Nat.eq_or_lt_of_le hij with rfl | hlt
    · exact UInt32.le_refl _
    · exact UInt32.le_of_lt (h.key_lt hs hlt hj)
  obtain ⟨i, hi, hle, hbelow, habove, hhit⟩ :=
    Page.leafFindCell_spec key (h.num ▸ hlen) hkeys
  rw [h.num] at hle
  refine ⟨L.take i, L.drop i, (List.take_append_drop i L).symm, ?_, ?_, ?_⟩
  · rw [hi, List.length_take, Nat.min_eq_left hle]
  · intro c hc
    obtain ⟨j, hj, rfl⟩ := List.mem_iff_getElem.mp hc
    rw [List.length_take] at hj
    rw [List.getElem_take, ← h.cell j (by omega)]
    -- A cell before the result that held the key would be a second one.
    rcases UInt32.lt_or_eq_of_le (hbelow j (by omega)) with hlt | heq
    · exact hlt
    · obtain ⟨hin, hkey⟩ := hhit ⟨j, by rw [h.num]; omega, heq⟩
      have := h.key_lt hs (show j < i by omega) hin
      grind
  · intro c hc
    obtain ⟨j, hj, rfl⟩ := List.mem_iff_getElem.mp hc
    rw [List.length_drop] at hj
    rw [List.getElem_drop, ← h.cell (i + j) (by omega)]
    exact habove (i + j) (by omega) (by rw [h.num]; omega)

theorem getElem_insert {L₁ L₂ : List LeafCell} (h : p.HasCells (L₁ ++ L₂)) (c : LeafCell) {j : Nat}
    (hj : j < (L₁ ++ c :: L₂).length) :
    (L₁ ++ c :: L₂)[j] = insertAt p.leafCells L₁.length c j := by
  simp only [List.length_append, List.length_cons] at hj
  unfold insertAt
  by_cases h₁ : j < L₁.length
  · rw [if_pos h₁, h.cell j (by simp; omega), List.getElem_append_left h₁,
      List.getElem_append_left h₁]
  · rw [if_neg h₁, List.getElem_append_right (by omega)]
    by_cases h₂ : j = L₁.length
    · subst h₂
      simp
    · rw [if_neg h₂, h.cell (j - 1) (by simp; omega), List.getElem_append_right (by omega),
        List.getElem_cons, dif_neg (by omega)]
      congr 1
      omega

/-- `GetMaxKey` is the key of the last cell. -/
theorem leafGetMaxKey (h : p.HasCells L) (hne : L ≠ []) : p.leafGetMaxKey = .ok (lastKey L) := by
  have hpos := List.length_pos_iff.mpr hne
  have hlt : p.num - 1 < L.length := by rw [h.num]; omega
  rw [Page.leafGetMaxKey, if_neg (by rw [h.num]; omega), h.cell _ hlt, lastKey,
    List.getLastD_eq_getLast?, List.getLast?_eq_getElem?, ← h.num, List.getElem?_eq_getElem hlt]
  rfl

/-- A page whose array is the old one with a cell inserted. -/
theorem of_insertAt {q : Page} {L₁ L₂ : List LeafCell} {c : LeafCell} (h : p.HasCells (L₁ ++ L₂))
    (hnum : q.num = p.num + 1)
    (hcell : ∀ j, j ≤ p.num → q.leafCells j = insertAt p.leafCells L₁.length c j) :
    q.HasCells (L₁ ++ c :: L₂) := by
  refine ⟨?_, fun j hj => ?_⟩
  · rw [hnum, h.num]
    simp only [List.length_append, List.length_cons]
    omega
  · rw [h.getElem_insert c hj]
    apply hcell
    rw [h.num]
    simp only [List.length_append, List.length_cons] at hj ⊢
    omega

end Page.HasCells

/-! ## The copy loop of a split -/

theorem length_of_full {L₁ L₂ : List LeafCell} (c : LeafCell)
    (h : (L₁ ++ L₂).length = LeafPage.cellsCapacity) : (L₁ ++ c :: L₂).length = 14 := by
  simp only [List.length_append, List.length_cons, cellsCapacity_eq] at h ⊢
  omega

theorem putKey_putVal {p : Page} {i : Nat} {key : UInt32} {row : UserSchema}
    (hi : i < LeafPage.cellsCapacity) :
    (do let q ← p.putKey i key; q.putVal i row) = .ok (p.putCell i ⟨key, row⟩) := by
  simp [Page.putKey, Page.putVal, (Page.leafCellOk_iff i).mpr hi, bind, Except.bind, Page.putCell,
    Page.setLeafCells, Page.leafCells]

/-- One turn stores cell `i` of the insertion, as long as the cells up to `i` are still the
old ones. -/
theorem splitCell_eq {cellNum i : Nat} {key : UInt32} {row : UserSchema} {curr des : Page}
    {f : Nat → LeafCell} (hf : ∀ j, j ≤ i → curr.leafCells j = f j) :
    Table.splitCell cellNum key row i curr des =
      .ok (des.putCell (i % LeafPage.leftSplitCount) (insertAt f cellNum ⟨key, row⟩ i)) := by
  have hcap : i % LeafPage.leftSplitCount < LeafPage.cellsCapacity := by simp; omega
  simp only [Table.splitCell, insertAt, (Page.leafCellOk_iff _).mpr hcap, Bool.not_true,
    Bool.false_eq_true, if_false]
  rcases Nat.lt_trichotomy i cellNum with hlt | heq | hgt
  · simp [hlt, Nat.not_lt.mpr (Nat.le_of_lt hlt), hf i (Nat.le_refl _)]
  · subst heq
    simpa using putKey_putVal hcap
  · simp [hgt, Nat.not_lt.mpr (Nat.le_of_lt hgt), Nat.ne_of_gt hgt, hf (i - 1) (by omega)]

/-- The copy loop touches cells only. -/
structure Page.SameHeader (p q : Page) : Prop where
  parent : q.parent = p.parent
  type : q.type = p.type
  isRoot : q.isRoot = p.isRoot
  num : q.num = p.num
  link : q.link = p.link

theorem Page.SameHeader.trans {p q r : Page} (h₁ : p.SameHeader q) (h₂ : q.SameHeader r) :
    p.SameHeader r :=
  ⟨h₂.parent.trans h₁.parent, h₂.type.trans h₁.type, h₂.isRoot.trans h₁.isRoot,
    h₂.num.trans h₁.num, h₂.link.trans h₁.link⟩

theorem Page.SameHeader.putCell (p : Page) (i : Nat) (c : LeafCell) : p.SameHeader (p.putCell i c) :=
  ⟨rfl, rfl, rfl, rfl, rfl⟩

/-- **The copy loop deals the insertion out over the two pages**: the first seven cells stay, the
rest go to the new page. From turn `i` down, the cells up to `i` are still to be dealt. -/
theorem splitLoop_eq (cellNum : Nat) (key : UInt32) (row : UserSchema) (f : Nat → LeafCell) :
    ∀ (i : Nat) (curr next : Page), i ≤ LeafPage.cellsCapacity →
      (∀ j, j ≤ i → curr.leafCells j = f j) →
      ∃ curr' next', Table.splitLoop cellNum key row i (curr, next) = .ok (curr', next') ∧
        curr.SameHeader curr' ∧ next.SameHeader next' ∧
        (∀ j, curr'.leafCells j =
          if j ≤ i ∧ j < 7 then insertAt f cellNum ⟨key, row⟩ j else curr.leafCells j) ∧
        ∀ j, next'.leafCells j =
          if j + 7 ≤ i then insertAt f cellNum ⟨key, row⟩ (j + 7) else next.leafCells j := by
  intro i
  induction i with
  | zero =>
    intro curr next _ hf
    refine ⟨curr.putCell 0 (insertAt f cellNum ⟨key, row⟩ 0), next, ?_, .putCell _ _ _,
      ⟨rfl, rfl, rfl, rfl, rfl⟩, fun j => ?_, fun j => ?_⟩
    · simp [Table.splitLoop, Table.splitStep, splitCell_eq hf, Except.map]
    · simp only [Page.leafCells_putCell, setAt]
      by_cases hj : j = 0
      · simp [hj]
      · rw [if_neg hj, if_neg (by omega)]
    · rw [if_neg (by omega)]
  | succ i ih =>
    intro curr next hi hf
    simp only [Table.splitLoop, Table.splitStep, splitCell_eq hf, Except.map, leftSplitCount_eq]
    by_cases h7 : i + 1 ≥ 7
    · -- Dealt to the new page; the full page is as it was.
      rw [if_pos h7, show (i + 1) % 7 = i + 1 - 7 by simp at hi; omega]
      obtain ⟨curr', next', hrun, hc, hn, hcells, hnext⟩ :=
        ih curr (next.putCell (i + 1 - 7) (insertAt f cellNum ⟨key, row⟩ (i + 1)))
          (by omega) (fun j hj => hf j (by omega))
      refine ⟨curr', next', hrun, hc, (Page.SameHeader.putCell _ _ _).trans hn, fun j => ?_,
        fun j => ?_⟩
      · rw [hcells]
        by_cases hj : j < 7
        · rw [if_pos (by omega), if_pos (by omega)]
        · rw [if_neg (by omega), if_neg (by omega)]
      · rw [hnext]
        by_cases hj : j + 7 ≤ i
        · rw [if_pos hj, if_pos (by omega)]
        · rw [if_neg hj, Page.leafCells_putCell]
          by_cases hj' : j + 7 = i + 1
          · rw [if_pos (by omega), show i + 1 - 7 = j by omega, setAt_self, hj']
          · rw [if_neg (by omega), setAt_of_ne (by omega)]
    · -- Dealt to the full page itself, over a cell the loop is done with.
      rw [if_neg h7, Nat.mod_eq_of_lt (by omega)]
      obtain ⟨curr', next', hrun, hc, hn, hcells, hnext⟩ :=
        ih (curr.putCell (i + 1) (insertAt f cellNum ⟨key, row⟩ (i + 1))) next (by omega)
          (fun j hj => by rw [Page.leafCells_putCell, setAt_of_ne (by omega)]; exact hf j (by omega))
      refine ⟨curr', next', hrun, (Page.SameHeader.putCell _ _ _).trans hc, hn, fun j => ?_,
        fun j => ?_⟩
      · rw [hcells]
        by_cases hj : j ≤ i
        · rw [if_pos (by omega), if_pos (by omega)]
        · rw [if_neg (by omega), Page.leafCells_putCell]
          by_cases hj' : j = i + 1
          · rw [if_pos (by omega), hj', setAt_self]
          · rw [if_neg (by omega), setAt_of_ne hj']
      · rw [hnext, if_neg (by omega), if_neg (by omega)]

/-! ## Running the calls -/

namespace Table

@[simp] theorem exec_page (n : Nat) (t : Table) :
    exec (page n) t = (.ok (t.pager.pages n), t) := rfl

/-- The table with one page stored. -/
def store (t : Table) (n : Nat) (p : Page) : Table := { t with pager := t.pager.overwrite n p }

@[simp] theorem exec_setPage (n : Nat) (p : Page) (t : Table) :
    exec (setPage n p) t = (.ok (), t.store n p) := rfl

@[simp] theorem rootPageNum_store (t : Table) (n : Nat) (p : Page) :
    (t.store n p).rootPageNum = t.rootPageNum := rfl

@[simp] theorem numPages_store (t : Table) (n : Nat) (p : Page) :
    (t.store n p).pager.numPages = t.pager.numPages := rfl

@[simp] theorem pages_store (t : Table) (n : Nat) (p : Page) :
    (t.store n p).pager.pages = setAt t.pager.pages n p := rfl

@[simp] theorem store_store (t : Table) (n : Nat) (p q : Page) :
    (t.store n p).store n q = t.store n q := by
  simp [store, PageArray.overwrite]

theorem store_comm (t : Table) {n m : Nat} (p q : Page) (h : n ≠ m) :
    (t.store n p).store m q = (t.store m q).store n p := by
  have hpages : setAt (setAt t.pager.pages n p) m q = setAt (setAt t.pager.pages m q) n p := by
    funext j
    simp only [setAt]
    split
    · rename_i hj; rw [if_neg (by omega)]
    · rfl
  simp [store, PageArray.overwrite, hpages]

@[simp] theorem exec_check_ok {α : Type} (a : α) (t : Table) :
    exec (check (.ok a)) t = (.ok a, t) := rfl

@[simp] theorem exec_found_some (i : Nat) (t : Table) : exec (found (some i)) t = (.ok i, t) := rfl

theorem exec_getPage {t : Table} {n : Nat} (hn : n < t.pager.numPages) (hmax : n < maxPages) :
    exec (getPage n) t = (.ok (t.pager.pages n), t) := by
  have hm : max t.pager.numPages (n + 1) = t.pager.numPages := by omega
  simp [getPage, exec_bind, PageArray.getPage, hm, Nat.not_le.mpr hmax]

/-- The table with the next page brought into use. -/
def grow (t : Table) : Table := { t with pager := t.pager.getPage t.pager.numPages }

@[simp] theorem rootPageNum_grow (t : Table) : t.grow.rootPageNum = t.rootPageNum := rfl

@[simp] theorem numPages_grow (t : Table) : t.grow.pager.numPages = t.pager.numPages + 1 := by
  simp [grow, PageArray.getPage]

@[simp] theorem pages_grow (t : Table) : t.grow.pager.pages = t.pager.pages := rfl

theorem exec_getPage_new {t : Table} (hmax : t.pager.numPages < maxPages) :
    exec (getPage t.pager.numPages) t = (.ok (t.pager.pages t.pager.numPages), t.grow) := by
  simp [getPage, exec_bind, Nat.not_le.mpr hmax, grow, PageArray.getPage]

theorem exec_getLeafPage {t : Table} {n : Nat} (hn : n < t.pager.numPages) (hmax : n < maxPages)
    (hleaf : (t.pager.pages n).type = .leaf) :
    exec (getLeafPage n) t = (.ok (t.pager.pages n), t) := by
  rw [getLeafPage, exec_bind_ok (exec_getPage hn hmax)]
  simp [Page.isDirty, hleaf]

/-- What a store into a leaf that keeps its links looks like from outside. -/
structure LeafStored (p q : Page) : Prop where
  parent : q.parent = p.parent
  type : q.type = p.type
  isRoot : q.isRoot = p.isRoot
  link : q.link = p.link

/-- **`ExecuteInsert` into a leaf with room** stores the leaf with the cell inserted at the
cursor, and nothing else. -/
theorem exec_executeInsert_room {t : Table} {c : Cursor} {L₁ L₂ : List LeafCell} (key : UInt32)
    (row : UserSchema) (hn : c.pageNum < t.pager.numPages) (hmax : c.pageNum < maxPages)
    (hleaf : (t.pager.pages c.pageNum).type = .leaf)
    (hcells : (t.pager.pages c.pageNum).HasCells (L₁ ++ L₂)) (hcell : c.cellNum = L₁.length)
    (hroom : (L₁ ++ L₂).length < LeafPage.cellsCapacity) :
    ∃ q, exec (executeInsert c key row) t = (.ok (), t.store c.pageNum q) ∧
      LeafStored (t.pager.pages c.pageNum) q ∧ q.HasCells (L₁ ++ ⟨key, row⟩ :: L₂) := by
  rw [executeInsert, exec_bind_ok (exec_getLeafPage hn hmax hleaf)]
  generalize hp : t.pager.pages c.pageNum = p at *
  have hnum : p.num = L₁.length + L₂.length := by rw [hcells.num, List.length_append]
  rw [List.length_append] at hroom
  rw [if_neg (by omega)]
  -- The page after the shift: every cell behind the cursor one up.
  generalize hq : (if c.cellNum < p.num then p.setLeafCells (shiftUp c.cellNum p.num p.leafCells)
    else p) = q
  have hqh : LeafStored p q ∧ q.num = p.num := by
    rw [← hq]
    split <;> exact ⟨⟨rfl, rfl, rfl, rfl⟩, rfl⟩
  have hqc : ∀ j, q.leafCells j =
      if c.cellNum < j ∧ j ≤ p.num then p.leafCells (j - 1) else p.leafCells j := by
    intro j
    rw [← hq]
    split
    · rw [Page.leafCells_setLeafCells, shiftUp_apply]
    · rw [if_neg (by omega)]
  have hok : Page.leafCellOk c.cellNum = true := (Page.leafCellOk_iff _).mpr (by omega)
  refine ⟨{ q with num := q.num + 1, body := .leaf (setAt q.leafCells c.cellNum ⟨key, row⟩) }, ?_,
    ⟨hqh.1.parent, hqh.1.type, hqh.1.isRoot, hqh.1.link⟩, ?_⟩
  · simp [exec_bind, Page.putKey, Page.putVal, hok, Page.putCell, Page.setLeafCells, Page.leafCells]
  · refine hcells.of_insertAt (by simp [hqh.2]) fun j hj => ?_
    show setAt q.leafCells c.cellNum ⟨key, row⟩ j = _
    rw [← hcell, insertAt]
    by_cases h₁ : j < c.cellNum
    · rw [if_pos h₁, setAt_of_ne (by omega), hqc, if_neg (by omega)]
    · by_cases h₂ : j = c.cellNum
      · rw [if_neg h₁, if_pos h₂, h₂, setAt_self]
      · rw [if_neg h₁, if_neg h₂, setAt_of_ne h₂, hqc, if_pos (by omega)]

/-- **Stages 1 and 2 of `DoInsertAndSplit`** on a full leaf: the insertion is cut at
`LeftSplitCount`, the new leaf takes the upper part, and the chain runs through it. -/
theorem exec_splitLeaf {t : Table} {c : Cursor} {L₁ L₂ : List LeafCell} (key : UInt32)
    (row : UserSchema) (hn : c.pageNum < t.pager.numPages) (hmax : t.pager.numPages < maxPages)
    (hfresh : t.pager.pages t.pager.numPages = Page.zero)
    (hcells : (t.pager.pages c.pageNum).HasCells (L₁ ++ L₂)) (hcell : c.cellNum = L₁.length)
    (hfull : (L₁ ++ L₂).length = LeafPage.cellsCapacity) :
    ∃ q r, exec (splitLeaf c key row) t =
        (.ok (t.pager.numPages, lastKey (L₁ ++ L₂)),
          (t.grow.store c.pageNum q).store t.pager.numPages r) ∧
      q.HasCells ((L₁ ++ ⟨key, row⟩ :: L₂).take LeafPage.leftSplitCount) ∧
      r.HasCells ((L₁ ++ ⟨key, row⟩ :: L₂).drop LeafPage.leftSplitCount) ∧
      q.parent = (t.pager.pages c.pageNum).parent ∧ q.type = (t.pager.pages c.pageNum).type ∧
      q.isRoot = (t.pager.pages c.pageNum).isRoot ∧ q.link = t.pager.numPages ∧
      r.parent = (t.pager.pages c.pageNum).parent ∧ r.type = .leaf ∧ r.isRoot = false ∧
      r.link = (t.pager.pages c.pageNum).link := by
  have hne : c.pageNum ≠ t.pager.numPages := by omega
  have hnew : exec (getLeafPage t.pager.numPages) t =
      (.ok Page.zero.leafReset, t.grow.store t.pager.numPages Page.zero.leafReset) := by
    rw [getLeafPage, exec_bind_ok (exec_getPage_new hmax), hfresh]
    simp [exec_map, Page.isDirty, Page.zero]
  generalize hp : t.pager.pages c.pageNum = p at *
  have hnum : p.num = 13 := by rw [hcells.num, hfull, cellsCapacity_eq]
  have hmaxKey : p.leafGetMaxKey = .ok (lastKey (L₁ ++ L₂)) :=
    hcells.leafGetMaxKey (by intro hnil; simp [hnil] at hfull)
  -- The two pages as the loop finds them, and as it leaves them.
  obtain ⟨curr', next', hloop, hc, hr, hcurr, hnext⟩ :=
    splitLoop_eq c.cellNum key row p.leafCells 13
      { p with link := t.pager.numPages }
      { Page.zero.leafReset with parent := p.parent, link := p.link } (by simp) (fun j _ => rfl)
  have hlen : (L₁ ++ ⟨key, row⟩ :: L₂).length = 14 := length_of_full _ hfull
  refine ⟨{ curr' with num := 7 }, { next' with num := 7 }, ?_, ?_, ?_, hc.parent, hc.type,
    hc.isRoot, hc.link, hr.parent, hr.type, hr.isRoot, hr.link⟩
  · rw [splitLeaf, exec_bind_ok (exec_get t), exec_bind_ok hnew]
    simp only [exec_bind, exec_page, pages_store, pages_grow, setAt_of_ne hne, hp, hmaxKey,
      exec_check_ok, exec_setPage, setAt_self, store_store, setAt_of_ne hne.symm, hloop,
      cellsCapacity_eq, leftSplitCount_eq, rightSplitCount_eq, exec_pure, Prod.mk.injEq, true_and]
    rw [store_comm _ _ _ hne.symm, store_store]
  · refine ⟨by simp [hlen], fun i hi => ?_⟩
    rw [leftSplitCount_eq, List.length_take, hlen] at hi
    rw [List.getElem_take, hcells.getElem_insert, ← hcell]
    show curr'.leafCells i = _
    rw [hcurr, if_pos (by omega)]
  · refine ⟨by simp [hlen], fun i hi => ?_⟩
    rw [leftSplitCount_eq, List.length_drop, hlen] at hi
    rw [List.getElem_drop, hcells.getElem_insert, ← hcell]
    show next'.leafCells i = _
    rw [hnext, if_pos (by omega), leftSplitCount_eq, Nat.add_comm]

/-! ### Splitting the root -/

/-- The state `SplitRoot` ends in, from pages `q` and `r` of the split root: `q` has moved to the
page behind `n`, and page 0 is the internal page over the two. -/
def rootSplit (t : Table) (n : Nat) (q r : Page) (leftMax : UInt32) : Table :=
  (((t.grow.grow.store 0
      { q with type := .internal, isRoot := true, num := 1, link := n,
               body := .internal (setAt (fun _ => ⟨0, 0⟩) 0 ⟨n + 1, leftMax⟩) }).store
      n { r with parent := 0 }).store (n + 1) { q with isRoot := false, parent := 0 })

theorem pages_rootSplit {t : Table} {n : Nat} {q r : Page} {k : UInt32} (m : Nat) :
    (rootSplit t n q r k).pager.pages m =
      if m = n + 1 then { q with isRoot := false, parent := 0 }
      else if m = n then { r with parent := 0 }
      else if m = 0 then
        { q with type := .internal, isRoot := true, num := 1, link := n,
                 body := .internal (setAt (fun _ => ⟨0, 0⟩) 0 ⟨n + 1, k⟩) }
      else t.pager.pages m := rfl

/-- **`SplitRoot` on the two halves of the root.** -/
theorem exec_splitRoot {t : Table} {n : Nat} {q r : Page} {M₁ : List LeafCell}
    (hrootNum : t.rootPageNum = 0) (hn : t.pager.numPages = n) (hpos : 0 < n)
    (hlow : n + 1 < maxPages) (hq : q.HasCells M₁) (hne : M₁ ≠ []) (hroot : q.isRoot = true) :
    exec (splitRoot n) ((t.grow.store 0 q).store n r) = (.ok (), rootSplit t n q r (lastKey M₁)) := by
  generalize ht₁ : (t.grow.store 0 q).store n r = t₁
  have hnum : t₁.pager.numPages = n + 1 := by rw [← ht₁]; simp [hn]
  have hpages : t₁.pager.pages = setAt (setAt t.pager.pages 0 q) n r := by rw [← ht₁]; rfl
  have hroot₁ : t₁.rootPageNum = 0 := by rw [← ht₁]; exact hrootNum
  have hget₀ : exec (getPage 0) t₁ = (.ok q, t₁) := by
    rw [exec_getPage (by omega) (by decide), hpages, setAt_of_ne (by omega), setAt_self]
  have hget₂ : exec (getPage (n + 1)) t₁ = (.ok (t₁.pager.pages (n + 1)), t₁.grow) := by
    have := @exec_getPage_new t₁ (by omega)
    rwa [hnum] at this
  have hget₁ : exec (getPage n) t₁.grow = (.ok r, t₁.grow) := by
    rw [exec_getPage (by rw [numPages_grow, hnum]; omega) (by omega), pages_grow, hpages, setAt_self]
  have hmax : Page.leafGetMaxKey { q with isRoot := false } = .ok (lastKey M₁) :=
    hq.leafGetMaxKey hne
  simp only [splitRoot, exec_bind, exec_get, hroot₁, hnum, hget₀, hget₂, hget₁, hroot]
  have hne₀ : n ≠ 0 := by omega
  simp [exec_bind, Page.setChild, Page.setKey, Except.toOption, setAt, hmax, Page.slotOk_iff,
    Page.putSlot, Page.setSlots, Page.slots, Page.internalReset, hne₀]
  rw [show t₁.pager.pages n = r by rw [hpages, setAt_self]]
  -- The two sides store the same pages in another order.
  simp only [rootSplit, ← ht₁, store, grow, PageArray.getPage, PageArray.overwrite]
  congr 2
  funext m
  simp only [setAt]
  grind

end Table

end CxxLab.DbLab
