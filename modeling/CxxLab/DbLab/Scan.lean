import CxxLab.DbLab.Tree

/-!
# Scans

`Value` and `Advance` until `end_of_table`. A scan never looks at the root: it starts on the
leaf `Find(0)` ends on and follows `next_leaf`. So what it needs is less than a tree — a
`Chain` of leaves — and both kinds of table have one.
-/

set_option autoImplicit false

namespace CxxLab.DbLab

open CxxLab.Lib Exec

/-- Leaves with cells in them, linked in this order. Page 0 can only be the first of them, since
a `next_leaf` of 0 is the end. -/
structure Chain (t : Table) (lv : Leaves) : Prop where
  maxPages : t.pager.numPages ≤ maxPages
  type : ∀ x ∈ lv, (t.pager.pages x.1).type = .leaf
  cells : ∀ x ∈ lv, (t.pager.pages x.1).HasCells x.2
  inUse : ∀ x ∈ lv, x.1 < t.pager.numPages
  nonempty : ∀ x ∈ lv, x.2 ≠ []
  capacity : ∀ x ∈ lv, x.2.length ≤ LeafPage.cellsCapacity
  link : ∀ i x, lv[i]? = some x → (t.pager.pages x.1).link = lv.next i
  ne_zero : ∀ i x, lv[i + 1]? = some x → x.1 ≠ 0

theorem Tree.chain {t : Table} {lv : Leaves} (h : Tree t lv) : Chain t lv := by
  refine ⟨Nat.le_of_lt h.numPages_le, ?_, ?_, fun x hx => (h.inUse x hx).2, ?_, ?_,
    fun i x hx => (h.leaf i x hx).link, ?_⟩
  · intro x hx
    obtain ⟨i, hi⟩ := h.exists_childLeaf hx
    exact hi.type
  · intro x hx
    obtain ⟨i, hi⟩ := h.exists_childLeaf hx
    exact hi.cells
  · intro x hx
    obtain ⟨i, hi⟩ := h.exists_childLeaf hx
    exact hi.nonempty
  · intro x hx
    obtain ⟨i, hi⟩ := h.exists_childLeaf hx
    exact hi.capacity
  · intro i x hx
    exact Nat.pos_iff_ne_zero.mp (h.inUse x (List.mem_of_getElem? hx)).1

/-- A leaf at page 0 is a chain of its own. -/
theorem Chain.single {t : Table} {L : List LeafCell} (hpages : t.pager.numPages = 1)
    (htype : (t.pager.pages 0).type = .leaf) (hcells : (t.pager.pages 0).HasCells L)
    (hlink : (t.pager.pages 0).link = 0) (hcap : L.length ≤ LeafPage.cellsCapacity) (hne : L ≠ []) :
    Chain t [(0, L)] := by
  refine ⟨by rw [hpages]; decide, ?_, ?_, ?_, ?_, ?_, ?_, ?_⟩
  · simpa using htype
  · simpa using hcells
  · simp [hpages]
  · simpa using hne
  · simpa using hcap
  · intro i x hx
    rcases i with _ | i
    · cases hx
      exact hlink
    · simp at hx
  · intro i x hx
    simp at hx

theorem RootLeaf.chain {t : Table} {L : List LeafCell} (h : RootLeaf t L) (hne : L ≠ []) :
    Chain t [(0, L)] :=
  Chain.single h.numPages h.type h.cells h.link h.capacity hne

namespace Chain

variable {t : Table} {lv : Leaves} {A B : Leaves} {p : Nat} {L₁ L₂ : List LeafCell} {c : LeafCell}

theorem lt_maxPages (h : Chain t lv) {x : Nat × List LeafCell} (hx : x ∈ lv) :
    x.1 < DbLab.maxPages :=
  Nat.lt_of_lt_of_le (h.inUse x hx) h.maxPages

/-- `Value` reads the cell under the cursor. -/
theorem exec_value (h : Chain t lv) (hlv : lv = A ++ (p, L₁ ++ c :: L₂) :: B) :
    exec (Table.value ⟨p, L₁.length, false⟩) t = (.ok c.val, t) := by
  have hmem : (p, L₁ ++ c :: L₂) ∈ lv := by rw [hlv]; simp
  have hcap := h.capacity _ hmem
  simp only [List.length_append, List.length_cons] at hcap
  have hget := Table.exec_getLeafPage (h.inUse _ hmem) (h.lt_maxPages hmem) (h.type _ hmem)
  rw [Table.value, exec_bind_ok hget, if_pos ((Page.leafCellOk_iff _).mpr (by dsimp only; omega)), exec_pure,
    (h.cells _ hmem).cell L₁.length (by simp)]
  simp

/-- `Advance` inside a leaf. -/
theorem exec_advance_cell (h : Chain t lv) (hlv : lv = A ++ (p, L₁ ++ c :: L₂) :: B)
    (hne : L₂ ≠ []) :
    exec (Table.advance ⟨p, L₁.length, false⟩) t = (.ok ⟨p, L₁.length + 1, false⟩, t) := by
  have hmem : (p, L₁ ++ c :: L₂) ∈ lv := by rw [hlv]; simp
  have hget := Table.exec_getLeafPage (h.inUse _ hmem) (h.lt_maxPages hmem) (h.type _ hmem)
  have hpos := List.length_pos_iff.mpr hne
  have hnum : ¬ (t.pager.pages p).num ≤ L₁.length + 1 := by
    rw [(h.cells _ hmem).num]
    simp only [List.length_append, List.length_cons]
    omega
  simp [Table.advance, exec_bind, hget, hnum]

/-- `Advance` on the last cell of a leaf with another behind it. -/
theorem exec_advance_leaf {x : Nat × List LeafCell} (h : Chain t lv)
    (hlv : lv = A ++ (p, L₁ ++ [c]) :: x :: B) :
    exec (Table.advance ⟨p, L₁.length, false⟩) t = (.ok ⟨x.1, 0, false⟩, t) := by
  have hmem : (p, L₁ ++ [c]) ∈ lv := by rw [hlv]; simp
  have hget := Table.exec_getLeafPage (h.inUse _ hmem) (h.lt_maxPages hmem) (h.type _ hmem)
  have hnum : (t.pager.pages p).num ≤ L₁.length + 1 := by rw [(h.cells _ hmem).num]; simp
  have hx : lv[A.length + 1]? = some x := by rw [hlv]; simp
  have hlink : (t.pager.pages p).link = x.1 := by
    rw [h.link A.length (p, L₁ ++ [c]) (by rw [hlv]; simp), Leaves.next, hx]
    rfl
  simp [Table.advance, exec_bind, hget, hnum, hlink, h.ne_zero _ _ hx]

/-- `Advance` on the last cell of all. -/
theorem exec_advance_end (h : Chain t lv) (hlv : lv = A ++ [(p, L₁ ++ [c])]) :
    exec (Table.advance ⟨p, L₁.length, false⟩) t = (.ok ⟨p, L₁.length + 1, true⟩, t) := by
  have hmem : (p, L₁ ++ [c]) ∈ lv := by rw [hlv]; simp
  have hget := Table.exec_getLeafPage (h.inUse _ hmem) (h.lt_maxPages hmem) (h.type _ hmem)
  have hnum : (t.pager.pages p).num ≤ L₁.length + 1 := by rw [(h.cells _ hmem).num]; simp
  have hlink : (t.pager.pages p).link = 0 := by
    rw [h.link A.length (p, L₁ ++ [c]) (by rw [hlv]; simp), hlv]
    simp [Leaves.next]
  simp [Table.advance, exec_bind, hget, hnum, hlink]

theorem exec_scanFrom_end (fuel : Nat) {cur : Cursor} (hend : cur.endOfTable = true) :
    exec (Table.scanFrom fuel cur) t = (.ok [], t) := by
  rw [Table.scanFrom.eq_def]
  simp [hend]

/-- **A scan reads the chain off**, from the cursor on. The induction is on the budget, which one
cell takes one of. -/
theorem exec_scanFrom (h : Chain t lv) : ∀ (fuel : Nat) (A : Leaves) (p : Nat)
    (L₁ : List LeafCell) (c : LeafCell) (L₂ : List LeafCell) (B : Leaves),
    lv = A ++ (p, L₁ ++ c :: L₂) :: B → (c :: L₂ ++ B.cells).length ≤ fuel →
    exec (Table.scanFrom fuel ⟨p, L₁.length, false⟩) t =
      (.ok ((c :: L₂ ++ B.cells).map LeafCell.val), t) := by
  intro fuel
  induction fuel with
  | zero => intro A p L₁ c L₂ B _ hfuel; simp at hfuel
  | succ fuel ih =>
    intro A p L₁ c L₂ B hlv hfuel
    simp only [List.cons_append, List.length_cons, Nat.add_le_add_iff_right] at hfuel
    rw [Table.scanFrom]
    simp only [Bool.false_eq_true, if_false]
    rw [exec_bind_ok (h.exec_value hlv)]
    rcases L₂ with _ | ⟨d, L₂⟩
    · rcases B with _ | ⟨⟨p', L'⟩, B⟩
      · rw [exec_bind_ok (h.exec_advance_end hlv), exec_bind_ok (exec_scanFrom_end fuel rfl)]
        simp
      · rw [exec_bind_ok (h.exec_advance_leaf hlv)]
        obtain ⟨d, L₂, rfl⟩ : ∃ d L₂, L' = d :: L₂ :=
          List.exists_cons_of_ne_nil (h.nonempty (p', L') (by rw [hlv]; simp))
        have := ih (A ++ [(p, L₁ ++ [c])]) p' [] d L₂ B (by rw [hlv]; simp) (by simpa using hfuel)
        dsimp only
        rw [List.length_nil] at this
        rw [exec_bind_ok this]
        simp
    · rw [exec_bind_ok (h.exec_advance_cell hlv (by simp))]
      have := ih A p (L₁ ++ [c]) d L₂ B (by rw [hlv]; simp) (by simpa using hfuel)
      rw [List.length_append, List.length_singleton] at this
      rw [exec_bind_ok this]
      simp

end Chain

/-! ## Whole scans -/

/-- **The scan of a tree** gives the rows of its leaves, in order. -/
theorem Tree.exec_scan {t : Table} {lv : Leaves} (h : Tree t lv) {fuel : Nat}
    (hfuel : lv.cells.length ≤ fuel) :
    exec (Table.scan fuel) t = (.ok (lv.cells.map LeafCell.val), t) := by
  obtain ⟨A, p, L₁, L₂, B, hlv, hfind, -, hlow, -⟩ := h.find 0
  have hnone : ∀ c ∈ A.cells ++ L₁, False := by
    intro c hc
    have := hlow c hc
    grind
  -- No key is below 0, so the cursor is on the first cell of the first leaf.
  have hcells : A.cells ++ L₁ = [] := List.eq_nil_iff_forall_not_mem.mpr hnone
  obtain ⟨hA, rfl⟩ := List.append_eq_nil_iff.mp hcells
  obtain rfl : A = [] := by
    rcases A with _ | ⟨⟨q, Q⟩, A⟩
    · rfl
    · have := h.chain.nonempty (q, Q) (by rw [hlv]; simp)
      simp at hA
      exact absurd hA.1 this
  have hmem : (p, [] ++ L₂) ∈ lv := by rw [hlv]; simp
  obtain ⟨c, L₂, rfl⟩ : ∃ c L, L₂ = c :: L :=
    List.exists_cons_of_ne_nil (by simpa using h.chain.nonempty _ hmem)
  have hget := Table.exec_getLeafPage (h.chain.inUse _ hmem) (h.chain.lt_maxPages hmem)
    (h.chain.type _ hmem)
  have hnum : (t.pager.pages p).num = L₂.length + 1 := by
    rw [(h.chain.cells _ hmem).num]
    simp
  have hstart : exec Table.startCursor t = (.ok ⟨p, 0, false⟩, t) := by
    rw [Table.startCursor, exec_bind_ok hfind]
    simp [exec_map, hget, hnum]
  rw [Table.scan, exec_bind_ok hstart]
  have := h.chain.exec_scanFrom fuel [] p [] c L₂ B hlv (by simpa [hlv] using hfuel)
  simpa [hlv] using this

theorem RootLeaf.exec_scan {t : Table} {L : List LeafCell} (h : RootLeaf t L) {fuel : Nat}
    (hfuel : L.length ≤ fuel) : exec (Table.scan fuel) t = (.ok (L.map LeafCell.val), t) := by
  obtain ⟨L₁, L₂, rfl, hfind, hlow, -⟩ := h.find 0
  obtain rfl : L₁ = [] := by
    apply List.eq_nil_iff_forall_not_mem.mpr
    intro c hc
    have := hlow c hc
    grind
  have hget := Table.exec_getLeafPage (t := t) (n := 0) (by rw [h.numPages]; exact Nat.one_pos)
    (by decide) h.type
  have hnum : (t.pager.pages 0).num = L₂.length := by rw [h.cells.num]; simp
  have hstart : exec Table.startCursor t = (.ok ⟨0, 0, decide (L₂.length = 0)⟩, t) := by
    rw [Table.startCursor, exec_bind_ok hfind]
    simp [exec_map, hget, hnum]
  rw [Table.scan, exec_bind_ok hstart]
  rcases L₂ with _ | ⟨c, L₂⟩
  · exact Chain.exec_scanFrom_end fuel rfl
  · have := (h.chain (by simp)).exec_scanFrom fuel [] 0 [] c L₂ [] rfl (by simpa using hfuel)
    simpa using this

end CxxLab.DbLab
