import CxxLab.DbLab.Ingest

/-!
# `ExecuteInsert` and the chain of leaves

What `ExecuteInsert` does to the leaves as a linked list, whatever the tree above them looks like.
`Linked` is a stretch of the list: pages, each a leaf with the given cells, each linked to the next.
Stretches can be cut and put together (`linked_append`), and they do not see stores into other pages
(`Linked.frame`), so an insertion is three local changes — a leaf with room is stored back, a leaf
that is split is followed by a new one, and the root's lower half moves to a page of its own.

Above the leaves only one thing matters: that the calls that follow a split store nothing but the
parent page (`Framed`).
-/

set_option autoImplicit false

namespace CxxLab.DbLab

open CxxLab.Lib Exec

/-! ## Stretches of the chain -/

/-- The pages from `n` on, linked through `next_leaf`, are the leaves `lv`; behind them comes
`stop`. -/
def Linked (pages : Nat → Page) : Nat → Leaves → Nat → Prop
  | n, [], stop => n = stop
  | n, (p, L) :: lv, stop =>
    n = p ∧ (pages p).type = .leaf ∧ (pages p).HasCells L ∧ Linked pages (pages p).link lv stop

theorem linked_pair {pages : Nat → Page} {m n stop : Nat} {q r : Page} {M₁ M₂ : List LeafCell}
    (hm : pages m = q) (hn : pages n = r) (hqtype : q.type = .leaf) (hq : q.HasCells M₁)
    (hqlink : q.link = n) (hrtype : r.type = .leaf) (hr : r.HasCells M₂) (hrlink : r.link = stop) :
    Linked pages m [(m, M₁), (n, M₂)] stop := by
  subst hm hn
  exact ⟨rfl, hqtype, hq, hqlink, hrtype, hr, hrlink⟩

theorem linked_append {pages : Nat → Page} {A B : Leaves} {stop : Nat} : ∀ {n : Nat},
    Linked pages n (A ++ B) stop ↔ ∃ m, Linked pages n A m ∧ Linked pages m B stop := by
  induction A with
  | nil => intro n; simp [Linked]
  | cons x A ih =>
    intro n
    obtain ⟨p, L⟩ := x
    simp only [List.cons_append, Linked, ih]
    constructor
    · rintro ⟨hn, htype, hcells, m, hA, hB⟩
      exact ⟨m, ⟨hn, htype, hcells, hA⟩, hB⟩
    · rintro ⟨m, ⟨hn, htype, hcells, hA⟩, hB⟩
      exact ⟨hn, htype, hcells, m, hA, hB⟩

/-- A stretch does not see other pages. -/
theorem Linked.frame {pages pages' : Nat → Page} {lv : Leaves} {stop : Nat} : ∀ {n : Nat},
    Linked pages n lv stop → (∀ x ∈ lv, pages' x.1 = pages x.1) → Linked pages' n lv stop := by
  induction lv with
  | nil => intro n h _; exact h
  | cons x lv ih =>
    intro n h hsame
    obtain ⟨p, L⟩ := x
    obtain ⟨hn, htype, hcells, hrest⟩ := h
    have hp : pages' p = pages p := hsame (p, L) List.mem_cons_self
    refine ⟨hn, ?_, ?_, ?_⟩
    · rw [hp]; exact htype
    · rw [hp]; exact hcells
    · rw [hp]; exact ih hrest fun x hx => hsame x (List.mem_cons_of_mem _ hx)

theorem Linked.type {pages : Nat → Page} {lv : Leaves} {stop : Nat} : ∀ {n : Nat},
    Linked pages n lv stop → ∀ x ∈ lv, (pages x.1).type = .leaf := by
  induction lv with
  | nil => intro n _ x hx; cases hx
  | cons y lv ih =>
    intro n h x hx
    obtain ⟨p, L⟩ := y
    obtain ⟨-, htype, -, hrest⟩ := h
    rcases List.mem_cons.mp hx with rfl | hx
    · exact htype
    · exact ih hrest x hx

/-! ## The chain of a table -/

/-- **The leaf chain**: from `start` on, distinct pages in use, no leaf over its capacity, and the
last one linked to 0. Page 0 can only be the first of them. -/
structure LeafChain (t : Table) (start : Nat) (lv : Leaves) : Prop where
  linked : Linked t.pager.pages start lv 0
  nodup : (lv.map Prod.fst).Nodup
  inUse : ∀ x ∈ lv, x.1 < t.pager.numPages
  capacity : ∀ x ∈ lv, x.2.length ≤ LeafPage.cellsCapacity
  tail_ne_zero : ∀ x ∈ lv.tail, x.1 ≠ 0

/-- A table with such a chain, whose leaves other than the root have an internal page for their
parent. The root is page 0, as `Table::Open` has it, and pages not in use are what `calloc` gives. -/
structure Insertable (t : Table) (start : Nat) (lv : Leaves) : Prop where
  chain : LeafChain t start lv
  rootPageNum : t.rootPageNum = 0
  fresh : ∀ n, t.pager.numPages ≤ n → t.pager.pages n = Page.zero
  root : ∀ x ∈ lv, (t.pager.pages x.1).isRoot = true → x.1 = 0
  parent : ∀ x ∈ lv, (t.pager.pages x.1).isRoot = false →
    (t.pager.pages (t.pager.pages x.1).parent).type = .internal

/-! ## What the calls above the leaves store -/

namespace Table

/-- The tables agree on every page but `n`. -/
structure SameBut (n : Nat) (t t' : Table) : Prop where
  pages : ∀ m, m ≠ n → t'.pager.pages m = t.pager.pages m
  numPages : t.pager.numPages ≤ t'.pager.numPages

theorem SameBut.refl (n : Nat) (t : Table) : SameBut n t t := ⟨fun _ _ => rfl, Nat.le_refl _⟩

theorem SameBut.trans {n : Nat} {t t' t'' : Table} (h : SameBut n t t') (h' : SameBut n t' t'') :
    SameBut n t t'' :=
  ⟨fun m hm => (h'.pages m hm).trans (h.pages m hm), Nat.le_trans h.numPages h'.numPages⟩

/-- Whatever its outcome, the call stores nothing but page `n`. -/
def Framed {α : Type} (n : Nat) (x : DbM α) : Prop := ∀ t, SameBut n t (exec x t).2

namespace Framed

variable {α β : Type} {n : Nat}

theorem bind {x : DbM α} {f : α → DbM β} (hx : Framed n x) (hf : ∀ a, Framed n (f a)) :
    Framed n (x >>= f) := by
  intro t
  have hfirst := hx t
  rw [exec_bind]
  rcases hres : exec x t with ⟨r, t₁⟩
  rw [hres] at hfirst
  cases r with
  | error e => exact hfirst
  | ok a => exact hfirst.trans (hf a t₁)

theorem pure (a : α) : Framed n (pure a : DbM α) := fun t => SameBut.refl n t

theorem throw (e : Fail) : Framed n (throw e : DbM α) := fun t => SameBut.refl n t

theorem page (m : Nat) : Framed n (page m) := fun t => SameBut.refl n t

theorem check (x : Except StatusType α) : Framed n (check x) := by
  cases x with
  | ok a => exact pure a
  | error s => exact throw _

theorem found (x : Option Nat) : Framed n (found x) := by
  cases x with
  | some i => exact pure i
  | none => exact throw _

theorem setPage (p : Page) : Framed n (setPage n p) :=
  fun _ => ⟨fun _ hm => setAt_of_ne hm, Nat.le_refl _⟩

theorem guard {c : Prop} [Decidable c] {e : Fail} {f : PUnit → DbM α} (hf : ∀ u, Framed n (f u)) :
    Framed n (if c then MonadExcept.throw e >>= f else f ()) := by
  split
  · exact (throw e).bind hf
  · exact hf _

theorem assert {c : Prop} [Decidable c] {e : Fail} {f : PUnit → DbM α} (hf : ∀ u, Framed n (f u)) :
    Framed n (if c then f () else MonadExcept.throw e >>= f) := by
  split
  · exact hf _
  · exact (throw e).bind hf

theorem getPage (m : Nat) : Framed n (getPage m) := by
  have hgrow : Framed n (modify fun t => { t with pager := t.pager.getPage m } : DbM Unit) :=
    fun t => ⟨fun _ _ => rfl, Nat.le_max_left _ _⟩
  unfold Table.getPage
  exact guard fun _ => hgrow.bind fun _ => page m

/-- **`InsertInternal` stores the parent page only.** -/
theorem insertInternal (child : Nat) : Framed n (insertInternal n child) := by
  unfold Table.insertInternal
  refine (page _).bind fun _ => (check _).bind fun maxKey => (page n).bind fun p₀ => ?_
  refine (page n).bind fun _ => (setPage _).bind fun _ => (page n).bind fun _ => ?_
  refine (found _).bind fun index => guard fun _ => ?_
  refine (page n).bind fun _ => (getPage _).bind fun _ => (check _).bind fun _ =>
    (page n).bind fun p => ?_
  split
  · exact setPage _
  · refine (setPage _).bind fun _ => (page n).bind fun _ => (check _).bind fun _ => ?_
    exact (setPage _).bind fun _ => (check _).bind fun _ => setPage _

end Framed

/-- **After a split** of a leaf that is not the root `DoInsertAndSplit` stores the parent only. -/
theorem sameBut_doInsertAndSplit {t t₁ : Table} {c : Cursor} {key : UInt32} {row : UserSchema}
    {n : Nat} {oldMax : UInt32} (hsplit : exec (splitLeaf c key row) t = (.ok (n, oldMax), t₁))
    (hroot : (t₁.pager.pages c.pageNum).isRoot = false) :
    SameBut (t₁.pager.pages c.pageNum).parent t₁ (exec (doInsertAndSplit c key row) t).2 := by
  rw [doInsertAndSplit, exec_bind_ok hsplit]
  dsimp only
  rw [exec_bind_ok (exec_page c.pageNum t₁), hroot]
  refine Framed.bind (.getPage _) (fun parent => ?_) t₁
  refine (Framed.check _).bind fun newMax => .assert fun _ => (Framed.found _).bind fun _ => ?_
  exact (Framed.check _).bind fun _ => (Framed.setPage _).bind fun _ => .insertInternal n

/-! ## Calls that run out of pages -/

theorem exec_getPage_overflow {n : Nat} (hn : maxPages ≤ n) (t : Table) :
    exec (getPage n) t = (.error .undefined, t) := by
  simp [getPage, hn]

theorem exec_getLeafPage_overflow {n : Nat} (hn : maxPages ≤ n) (t : Table) :
    exec (getLeafPage n) t = (.error .undefined, t) := by
  rw [getLeafPage, exec_bind, exec_getPage_overflow hn]

variable {t t' : Table} {c : Cursor} {key : UInt32} {row : UserSchema}

theorem pageNum_lt_maxPages (h : exec (executeInsert c key row) t = (.ok (), t')) :
    c.pageNum < maxPages := by
  by_contra hge
  rw [executeInsert, exec_bind, exec_getLeafPage_overflow (Nat.not_lt.mp hge)] at h
  cases h

theorem numPages_lt_maxPages (h : exec (doInsertAndSplit c key row) t = (.ok (), t')) :
    t.pager.numPages < maxPages := by
  by_contra hge
  rw [doInsertAndSplit, exec_bind, splitLeaf, exec_bind_ok (exec_get t), exec_bind,
    exec_getLeafPage_overflow (Nat.not_lt.mp hge)] at h
  cases h

theorem numPages_lt_of_splitRoot {n : Nat} (hroot : t.rootPageNum < t.pager.numPages)
    (hmax : t.rootPageNum < maxPages) (h : exec (splitRoot n) t = (.ok (), t')) :
    t.pager.numPages < maxPages := by
  by_contra hge
  rw [splitRoot, exec_bind_ok (exec_get _), exec_bind_ok (exec_get _),
    exec_bind_ok (exec_getPage hroot hmax), exec_bind,
    exec_getPage_overflow (Nat.not_lt.mp hge)] at h
  cases h

end Table

/-! ## Putting a chain together -/

namespace LeafChain

variable {t t' : Table} {start start' s p : Nat} {A B M : Leaves} {L : List LeafCell}

theorem tail_subset {x : Nat × List LeafCell} (hx : x ∈ B) : x ∈ (A ++ (p, L) :: B).tail := by
  cases A with
  | nil => exact hx
  | cons a A => exact List.mem_append_right _ (List.mem_cons_of_mem _ hx)

/-- Leaves on the page of one leaf, or on new pages, are on no page of the others. -/
theorem nodup_replace (h : LeafChain t start (A ++ (p, L) :: B))
    (hplace : ∀ x ∈ M, x.1 = p ∨ t.pager.numPages ≤ x.1) (hnodup : (M.map Prod.fst).Nodup) :
    ((A ++ (M ++ B)).map Prod.fst).Nodup := by
  have hold := h.nodup
  rw [List.map_append, List.map_cons, List.nodup_append] at hold
  obtain ⟨hAnodup, hpBnodup, hdisjoint⟩ := hold
  rw [List.nodup_cons] at hpBnodup
  have hMA : ∀ x ∈ A, ∀ y ∈ M, x.1 ≠ y.1 := by
    intro x hx y hy heq
    rcases hplace y hy with hy' | hy'
    · exact hdisjoint x.1 (List.mem_map_of_mem hx) p List.mem_cons_self (heq.trans hy')
    · have := h.inUse x (by simp [hx])
      omega
  have hMB : ∀ y ∈ M, ∀ x ∈ B, y.1 ≠ x.1 := by
    intro y hy x hx heq
    rcases hplace y hy with hy' | hy'
    · exact hpBnodup.1 (hy' ▸ heq ▸ List.mem_map_of_mem hx)
    · have := h.inUse x (by simp [hx])
      omega
  rw [List.map_append, List.map_append, List.nodup_append, List.nodup_append]
  refine ⟨hAnodup, ⟨hnodup, hpBnodup.2, ?_⟩, ?_⟩
  · intro a ha b hb
    obtain ⟨y, hy, rfl⟩ := List.mem_map.mp ha
    obtain ⟨x, hx, rfl⟩ := List.mem_map.mp hb
    exact hMB y hy x hx
  · intro a ha b hb
    obtain ⟨x, hx, rfl⟩ := List.mem_map.mp ha
    rcases List.mem_append.mp hb with hb | hb
    · obtain ⟨y, hy, rfl⟩ := List.mem_map.mp hb
      exact hMA x hx y hy
    · exact hdisjoint x.1 (List.mem_map_of_mem hx) b (List.mem_cons_of_mem _ hb)

/-- **One leaf of a chain is replaced** by leaves on its page or on new pages. -/
theorem replace (h : LeafChain t start (A ++ (p, L) :: B))
    (hnum : t.pager.numPages ≤ t'.pager.numPages)
    (hA : Linked t'.pager.pages start' A s)
    (hM : Linked t'.pager.pages s M (t.pager.pages p).link)
    (hB : ∀ x ∈ B, t'.pager.pages x.1 = t.pager.pages x.1)
    (hplace : ∀ x ∈ M, x.1 = p ∨ t.pager.numPages ≤ x.1)
    (hnew : ∀ x ∈ M.tail, t.pager.numPages ≤ x.1) (hnodup : (M.map Prod.fst).Nodup)
    (hinUse : ∀ x ∈ M, x.1 < t'.pager.numPages)
    (hcapacity : ∀ x ∈ M, x.2.length ≤ LeafPage.cellsCapacity) :
    LeafChain t' start' (A ++ (M ++ B)) := by
  obtain ⟨m, hA₀, hpB⟩ := linked_append.mp h.linked
  obtain ⟨-, -, -, hB₀⟩ := hpB
  have hp : p < t.pager.numPages := h.inUse (p, L) (by simp)
  refine ⟨?_, ?_, ?_, ?_, ?_⟩
  · exact linked_append.mpr ⟨s, hA, linked_append.mpr ⟨_, hM, hB₀.frame hB⟩⟩
  · exact h.nodup_replace hplace hnodup
  · intro x hx
    rcases List.mem_append.mp hx with hx | hx
    · exact Nat.lt_of_lt_of_le (h.inUse x (by simp [hx])) hnum
    rcases List.mem_append.mp hx with hx | hx
    · exact hinUse x hx
    · exact Nat.lt_of_lt_of_le (h.inUse x (by simp [hx])) hnum
  · intro x hx
    rcases List.mem_append.mp hx with hx | hx
    · exact h.capacity x (by simp [hx])
    rcases List.mem_append.mp hx with hx | hx
    · exact hcapacity x hx
    · exact h.capacity x (by simp [hx])
  · intro x hx
    cases A with
    | nil =>
      cases M with
      | nil => exact h.tail_ne_zero x (tail_subset (List.mem_of_mem_tail hx))
      | cons y M =>
        rcases List.mem_append.mp hx with hx | hx
        · have := hnew x hx
          omega
        · exact h.tail_ne_zero x hx
    | cons a A =>
      rcases List.mem_append.mp hx with hx | hx
      · exact h.tail_ne_zero x (List.mem_append_left _ hx)
      rcases List.mem_append.mp hx with hx | hx
      · rcases hplace x hx with hx' | hx'
        · rw [hx']
          exact h.tail_ne_zero (p, L) (by simp)
        · omega
      · exact h.tail_ne_zero x (tail_subset hx)

/-- The two halves of a split. The upper one is on a new page, the lower one on the old page or on
a new one. -/
theorem replaceTwo (h : LeafChain t start (A ++ (p, L) :: B)) {m n : Nat} {M₁ M₂ : List LeafCell}
    (hA : Linked t'.pager.pages start' A m)
    (hM : Linked t'.pager.pages m [(m, M₁), (n, M₂)] (t.pager.pages p).link)
    (hB : ∀ x ∈ B, t'.pager.pages x.1 = t.pager.pages x.1)
    (hm : m = p ∨ t.pager.numPages ≤ m) (hn : t.pager.numPages ≤ n) (hne : m ≠ n)
    (hm' : m < t'.pager.numPages) (hn' : n < t'.pager.numPages)
    (h₁ : M₁.length ≤ LeafPage.cellsCapacity) (h₂ : M₂.length ≤ LeafPage.cellsCapacity) :
    LeafChain t' start' (A ++ ([(m, M₁), (n, M₂)] ++ B)) := by
  refine h.replace (Nat.le_of_lt (Nat.lt_of_le_of_lt hn hn')) hA hM hB ?_ ?_ ?_ ?_ ?_
  · intro x hx
    rcases List.mem_cons.mp hx with rfl | hx
    · exact hm
    · rw [List.mem_singleton.mp hx]
      exact .inr hn
  · intro x hx
    rw [List.mem_singleton.mp hx]
    exact hn
  · simpa using hne
  · intro x hx
    rcases List.mem_cons.mp hx with rfl | hx
    · exact hm'
    · rw [List.mem_singleton.mp hx]
      exact hn'
  · intro x hx
    rcases List.mem_cons.mp hx with rfl | hx
    · exact h₁
    · rw [List.mem_singleton.mp hx]
      exact h₂

end LeafChain

/-! ## The three insertions -/

namespace Insertable

variable {t t' : Table} {start : Nat} {A B : Leaves} {c : Cursor} {L₁ L₂ : List LeafCell}
  {key : UInt32} {row : UserSchema}

/-- A page that is neither the cursor's leaf nor new is on neither of them. -/
theorem ne_of_mem (h : Insertable t start (A ++ (c.pageNum, L₁ ++ L₂) :: B))
    {x : Nat × List LeafCell} (hx : x ∈ A ++ B) : x.1 ≠ c.pageNum ∧ x.1 < t.pager.numPages := by
  have hold := h.chain.nodup
  rw [List.map_append, List.map_cons, List.nodup_append, List.nodup_cons] at hold
  obtain ⟨-, ⟨hpB, -⟩, hdisjoint⟩ := hold
  rcases List.mem_append.mp hx with hx | hx
  · exact ⟨hdisjoint x.1 (List.mem_map_of_mem hx) _ List.mem_cons_self,
      h.chain.inUse x (by simp [hx])⟩
  · refine ⟨fun heq => ?_, h.chain.inUse x (by simp [hx])⟩
    have hmem : x.1 ∈ B.map Prod.fst := List.mem_map_of_mem hx
    exact hpB (heq ▸ hmem)

theorem leaf (h : Insertable t start (A ++ (c.pageNum, L₁ ++ L₂) :: B)) :
    (t.pager.pages c.pageNum).type = .leaf ∧ (t.pager.pages c.pageNum).HasCells (L₁ ++ L₂) ∧
      c.pageNum < t.pager.numPages ∧ Linked t.pager.pages start A c.pageNum := by
  obtain ⟨m, hA, rfl, htype, hcells, -⟩ := linked_append.mp h.chain.linked
  exact ⟨htype, hcells, h.chain.inUse (c.pageNum, L₁ ++ L₂) (by simp), hA⟩

/-- **A leaf with room** keeps its place in the chain. -/
theorem insert_room (h : Insertable t start (A ++ (c.pageNum, L₁ ++ L₂) :: B))
    (hcell : c.cellNum = L₁.length) (hroom : (L₁ ++ L₂).length < LeafPage.cellsCapacity)
    (hrun : exec (Table.executeInsert c key row) t = (.ok (), t')) :
    LeafChain t' start (A ++ ([(c.pageNum, L₁ ++ ⟨key, row⟩ :: L₂)] ++ B)) := by
  obtain ⟨htype, hcells, hn, hA⟩ := h.leaf
  obtain ⟨q, hrun', hq, hqcells⟩ := Table.exec_executeInsert_room key row hn
    (Table.pageNum_lt_maxPages hrun) htype hcells hcell hroom
  rw [hrun] at hrun'
  obtain rfl : t' = t.store c.pageNum q := congrArg Prod.snd hrun'
  have hframe : ∀ x ∈ A ++ B, (t.store c.pageNum q).pager.pages x.1 = t.pager.pages x.1 :=
    fun x hx => setAt_of_ne (h.ne_of_mem hx).1
  have hpage : (t.store c.pageNum q).pager.pages c.pageNum = q := setAt_self _ _ _
  refine h.chain.replace (Nat.le_refl _) (hA.frame fun x hx => hframe x (by simp [hx])) ?_
    (fun x hx => hframe x (by simp [hx])) (by simp) (by simp) (by simp) ?_ ?_
  · refine ⟨rfl, ?_, ?_, ?_⟩
    · rw [hpage, hq.type]; exact htype
    · rw [hpage]; exact hqcells
    · rw [hpage]; exact hq.link
  · intro x hx
    rw [List.mem_singleton.mp hx]
    exact hn
  · intro x hx
    rw [List.mem_singleton.mp hx]
    simp only [List.length_append, List.length_cons] at hroom ⊢
    omega

/-- **A leaf that is not the root** is followed by the new one. -/
theorem insert_split (h : Insertable t start (A ++ (c.pageNum, L₁ ++ L₂) :: B))
    (hcell : c.cellNum = L₁.length) (hfull : (L₁ ++ L₂).length = LeafPage.cellsCapacity)
    (hroot : (t.pager.pages c.pageNum).isRoot = false)
    (hrun : exec (Table.doInsertAndSplit c key row) t = (.ok (), t')) :
    LeafChain t' start (A ++
      ([(c.pageNum, (L₁ ++ ⟨key, row⟩ :: L₂).take LeafPage.leftSplitCount),
        (t.pager.numPages, (L₁ ++ ⟨key, row⟩ :: L₂).drop LeafPage.leftSplitCount)] ++ B)) := by
  obtain ⟨htype, hcells, hn, hA⟩ := h.leaf
  have hlow := Table.numPages_lt_maxPages hrun
  obtain ⟨q, r, hsplit, hq, hr, hqparent, hqtype, hqroot, hqlink, -, hrtype, -, hrlink⟩ :=
    Table.exec_splitLeaf key row hn hlow (h.fresh _ (Nat.le_refl _)) hcells hcell hfull
  have hlen : (L₁ ++ ⟨key, row⟩ :: L₂).length = 14 := length_of_full _ hfull
  have hne : c.pageNum ≠ t.pager.numPages := by omega
  generalize ht₁ : (t.grow.store c.pageNum q).store t.pager.numPages r = t₁ at hsplit
  have hpages : t₁.pager.pages = setAt (setAt t.pager.pages c.pageNum q) t.pager.numPages r := by
    rw [← ht₁]
    rfl
  have hnum : t₁.pager.numPages = t.pager.numPages + 1 := by rw [← ht₁]; simp
  have hcurr : t₁.pager.pages c.pageNum = q := by rw [hpages, setAt_of_ne hne, setAt_self]
  -- Everything that follows stores the parent only, which is no leaf and not new.
  have hsame : Table.SameBut q.parent t₁ t' := by
    have := Table.sameBut_doInsertAndSplit hsplit (by rw [hcurr, hqroot, hroot])
    rwa [hrun, hcurr] at this
  have hparent : (t.pager.pages q.parent).type = .internal := by
    rw [hqparent]
    exact h.parent (c.pageNum, L₁ ++ L₂) (by simp) hroot
  have hpn : t.pager.numPages ≠ q.parent := by
    intro heq
    rw [← heq, h.fresh _ (Nat.le_refl _)] at hparent
    cases hparent
  have hleafne : ∀ m, (t.pager.pages m).type = .leaf → m ≠ q.parent := by
    rintro m hm rfl
    rw [hm] at hparent
    cases hparent
  have hpage : t'.pager.pages c.pageNum = q := by
    rw [hsame.pages _ (hleafne _ htype), hcurr]
  have hnext : t'.pager.pages t.pager.numPages = r := by
    rw [hsame.pages _ hpn, hpages, setAt_self]
  have hframe : ∀ x ∈ A ++ B, t'.pager.pages x.1 = t.pager.pages x.1 := by
    intro x hx
    have hleaf : (t.pager.pages x.1).type = .leaf := by
      refine h.chain.linked.type x ?_
      rcases List.mem_append.mp hx with hx | hx <;> simp [hx]
    obtain ⟨hxc, hxn⟩ := h.ne_of_mem hx
    rw [hsame.pages _ (hleafne _ hleaf), hpages, setAt_of_ne (by omega), setAt_of_ne hxc]
  have hnum' : t.pager.numPages < t'.pager.numPages := by
    have := hsame.numPages
    omega
  have hpair := linked_pair hpage hnext (hqtype.trans htype) hq hqlink hrtype hr hrlink
  exact h.chain.replaceTwo (hA.frame fun x hx => hframe x (by simp [hx])) hpair
    (fun x hx => hframe x (by simp [hx])) (.inl rfl) (Nat.le_refl _) hne (Nat.lt_trans hn hnum')
    hnum' (by simp [hlen]) (by simp [hlen])

/-- **The root leaf** becomes an internal page; its lower half is now on the page behind the new
one, which is the first child of the root. -/
theorem insert_splitRoot (h : Insertable t start (A ++ (c.pageNum, L₁ ++ L₂) :: B))
    (hcell : c.cellNum = L₁.length) (hfull : (L₁ ++ L₂).length = LeafPage.cellsCapacity)
    (hroot : (t.pager.pages c.pageNum).isRoot = true)
    (hrun : exec (Table.doInsertAndSplit c key row) t = (.ok (), t')) :
    A = [] ∧
    (t'.pager.pages t'.rootPageNum).getChildPageNum 0 = .ok (t.pager.numPages + 1) ∧
    LeafChain t' (t.pager.numPages + 1)
      ([(t.pager.numPages + 1, (L₁ ++ ⟨key, row⟩ :: L₂).take LeafPage.leftSplitCount),
        (t.pager.numPages, (L₁ ++ ⟨key, row⟩ :: L₂).drop LeafPage.leftSplitCount)] ++ B) := by
  obtain ⟨htype, hcells, hn, hA⟩ := h.leaf
  have hzero : c.pageNum = 0 := h.root (c.pageNum, L₁ ++ L₂) (by simp) hroot
  obtain rfl : A = [] := by
    cases A with
    | nil => rfl
    | cons a A => exact absurd hzero (h.chain.tail_ne_zero (c.pageNum, L₁ ++ L₂) (by simp))
  have hlow := Table.numPages_lt_maxPages hrun
  obtain ⟨q, r, hsplit, hq, hr, -, hqtype, hqroot, hqlink, -, hrtype, -, hrlink⟩ :=
    Table.exec_splitLeaf key row hn hlow (h.fresh _ (Nat.le_refl _)) hcells hcell hfull
  have hlen : (L₁ ++ ⟨key, row⟩ :: L₂).length = 14 := length_of_full _ hfull
  have hpos : 0 < t.pager.numPages := by omega
  rw [hzero] at hsplit
  have hcurr : ((t.grow.store 0 q).store t.pager.numPages r).pager.pages c.pageNum = q := by
    rw [Table.pages_store, hzero, setAt_of_ne (by omega), Table.pages_store, setAt_self]
  rw [Table.doInsertAndSplit, exec_bind_ok hsplit] at hrun
  dsimp only at hrun
  rw [exec_bind_ok (Table.exec_page _ _), hcurr, hqroot, hroot, if_pos rfl] at hrun
  have hlow' : t.pager.numPages + 1 < maxPages := by
    have hlt := Table.numPages_lt_of_splitRoot (by simp [h.rootPageNum])
      (by simpa [h.rootPageNum] using (by decide : 0 < maxPages)) hrun
    simpa using hlt
  rw [Table.exec_splitRoot h.rootPageNum rfl hpos hlow' hq
    (List.ne_nil_of_length_pos (by simp [hlen])) (hqroot.trans hroot)] at hrun
  obtain rfl : Table.rootSplit t t.pager.numPages q r _ = t' := congrArg Prod.snd hrun
  generalize hk : lastKey ((L₁ ++ ⟨key, row⟩ :: L₂).take LeafPage.leftSplitCount) = k
  have hroot' := @Table.pages_rootSplit t t.pager.numPages q r k 0
  have hlower := @Table.pages_rootSplit t t.pager.numPages q r k (t.pager.numPages + 1)
  have hupper := @Table.pages_rootSplit t t.pager.numPages q r k t.pager.numPages
  rw [if_neg (by omega), if_neg (by omega), if_pos rfl] at hroot'
  rw [if_pos rfl] at hlower
  rw [if_neg (by omega), if_pos rfl] at hupper
  have hnum : (Table.rootSplit t t.pager.numPages q r k).pager.numPages = t.pager.numPages + 2 := by
    show t.grow.grow.pager.numPages = _
    rw [Table.numPages_grow, Table.numPages_grow]
  have hframe : ∀ x ∈ B, (Table.rootSplit t t.pager.numPages q r k).pager.pages x.1 =
      t.pager.pages x.1 := by
    intro x hx
    obtain ⟨hxc, hxn⟩ := h.ne_of_mem (List.mem_append_right [] hx)
    rw [Table.pages_rootSplit, if_neg (by omega), if_neg (by omega), if_neg (by omega)]
  refine ⟨rfl, ?_, ?_⟩
  · have hnum₀ : (Table.rootSplit t t.pager.numPages q r k).rootPageNum = 0 := h.rootPageNum
    rw [hnum₀, hroot']
    rfl
  · have hpair := linked_pair hlower hupper (hqtype.trans htype) ⟨hq.num, hq.cell⟩ hqlink hrtype
      ⟨hr.num, hr.cell⟩ hrlink
    exact h.chain.replaceTwo (A := []) rfl hpair hframe (.inr (Nat.le_succ _)) (Nat.le_refl _)
      (Nat.succ_ne_self _) (by omega) (by omega) (by simp [hlen]) (by simp [hlen])

end Insertable

/-- **`ExecuteInsert` splices one cell into the leaf chain**: if it returns OK, there is a leaf chain
again, and along it stand the old cells with the new one at the place of the cursor. The chain begins
where it began, unless the root was a leaf and is one no more: then it begins at the root's first
child. -/
theorem executeInsert_splices {t t' : Table} {start : Nat} {A B : Leaves} {L : List LeafCell}
    {c : Cursor} {key : UInt32} {row : UserSchema}
    (h : Insertable t start (A ++ (c.pageNum, L) :: B)) (hcell : c.cellNum ≤ L.length)
    (hrun : exec (Table.executeInsert c key row) t = (.ok (), t')) :
    ∃ start' lv', LeafChain t' start' lv' ∧
      Leaves.cells lv' =
        A.cells ++ L.take c.cellNum ++ ⟨key, row⟩ :: (L.drop c.cellNum ++ B.cells) ∧
      (start' = start ∨ (t.pager.pages c.pageNum).isRoot = true ∧
        (t'.pager.pages t'.rootPageNum).getChildPageNum 0 = .ok start') := by
  have hsplitL : L = L.take c.cellNum ++ L.drop c.cellNum := (List.take_append_drop _ _).symm
  have hcut : c.cellNum = (L.take c.cellNum).length := by
    rw [List.length_take, Nat.min_eq_left hcell]
  generalize L.take c.cellNum = L₁ at *
  generalize L.drop c.cellNum = L₂ at *
  subst hsplitL
  have hsplice : ∀ (k : Nat) (M : List LeafCell) (p q : Nat),
      Leaves.cells (A ++ ([(p, M.take k), (q, M.drop k)] ++ B)) = A.cells ++ M ++ B.cells := by
    intro k M p q
    simp [Leaves.cells, ← List.append_assoc]
  obtain ⟨htype, hcells, hn, -⟩ := h.leaf
  have hcap := h.chain.capacity (c.pageNum, L₁ ++ L₂) (by simp)
  rcases Nat.lt_or_ge (L₁ ++ L₂).length LeafPage.cellsCapacity with hroom | hfull
  · refine ⟨start, _, h.insert_room hcut hroom hrun, ?_, .inl rfl⟩
    simp [Leaves.cells]
  -- A full leaf is split.
  have hfull : (L₁ ++ L₂).length = LeafPage.cellsCapacity := Nat.le_antisymm hcap hfull
  have hget := Table.exec_getLeafPage hn (Table.pageNum_lt_maxPages hrun) htype
  rw [Table.executeInsert, exec_bind_ok hget,
    if_pos (Nat.le_of_eq (by rw [hcells.num, hfull]))] at hrun
  cases hroot : (t.pager.pages c.pageNum).isRoot with
  | false =>
    refine ⟨start, _, h.insert_split hcut hfull hroot hrun, ?_, .inl rfl⟩
    rw [hsplice]
    simp
  | true =>
    obtain ⟨rfl, hchild, hchain⟩ := h.insert_splitRoot hcut hfull hroot hrun
    refine ⟨_, _, hchain, ?_, .inr ⟨rfl, hchild⟩⟩
    refine (hsplice _ _ _ _).trans ?_
    simp

theorem RootLeaf.insertable {t : Table} {L : List LeafCell} (h : RootLeaf t L) :
    Insertable t 0 [(0, L)] where
  chain :=
    { linked := ⟨rfl, h.type, h.cells, h.link⟩
      nodup := by simp
      inUse := by simp [h.numPages]
      capacity := by simpa using h.capacity
      tail_ne_zero := by simp }
  rootPageNum := h.rootPageNum
  fresh := h.fresh
  root := by simp
  parent := by simp [h.isRoot]

/-- The tables the tree proofs are about have such a chain. -/
theorem Tree.insertable {t : Table} {lv : Leaves} (h : Tree t lv) :
    Insertable t ((lv[0]?.map Prod.fst).getD 0) lv := by
  have hlinked : ∀ (B A : Leaves), lv = A ++ B →
      Linked t.pager.pages ((B[0]?.map Prod.fst).getD 0) B 0 := by
    intro B
    induction B with
    | nil => intro A _; rfl
    | cons x B ih =>
      intro A hlv
      obtain ⟨p, L⟩ := x
      have hat := h.leaf A.length (p, L) (by rw [hlv]; simp)
      have hnext : lv.next A.length = (B[0]?.map Prod.fst).getD 0 := by
        rw [Leaves.next, hlv, List.getElem?_append_right (by omega)]
        simp
      refine ⟨rfl, hat.type, hat.cells, ?_⟩
      rw [hat.link, hnext]
      exact ih (A ++ [(p, L)]) (by rw [hlv]; simp)
  refine ⟨⟨hlinked lv [] rfl, h.nodup, fun x hx => (h.inUse x hx).2, ?_, ?_⟩, h.rootPageNum, h.fresh,
    ?_, ?_⟩
  · intro x hx
    obtain ⟨i, hi⟩ := h.exists_childLeaf hx
    exact hi.capacity
  · intro x hx
    exact Nat.ne_of_gt (h.inUse x (List.mem_of_mem_tail hx)).1
  · intro x hx hroot
    obtain ⟨i, hi⟩ := h.exists_childLeaf hx
    rw [hi.isRoot] at hroot
    cases hroot
  · intro x hx _
    obtain ⟨i, hi⟩ := h.exists_childLeaf hx
    rw [hi.parent]
    exact h.root.type

/-- So every table that a run of insertions leaves behind, as long as only the rightmost leaf is split, can
be spliced into. -/
theorem Holds.insertable {t : Table} {L : List LeafCell} (h : Holds t L) :
    ∃ start lv, Insertable t start lv ∧ Leaves.cells lv = L := by
  cases h with
  | leaf h => exact ⟨_, _, h.insertable, by simp [Leaves.cells]⟩
  | tree h => exact ⟨_, _, h.insertable, rfl⟩

def idCells (keys : List UInt32) : List LeafCell := (idRows keys).map cellOf

/-- A leaf of the page 0 that holds `keys`, and whose `next_leaf` is `next`. -/
def leafUnderRoot (keys : List UInt32) (next : Nat) : Page :=
  { parent := 0, type := .leaf, isRoot := false, num := keys.length, link := next,
    body := .leaf fun i => (idCells keys).getD i ⟨0, UserSchema.zero⟩ }

theorem hasCells_leafUnderRoot (keys : List UInt32) (next : Nat) :
    (leafUnderRoot keys next).HasCells (idCells keys) where
  num := by simp [leafUnderRoot, idCells, idRows]
  cell i h := by simp [leafUnderRoot, Page.leafCells, h]

def keysBefore : List UInt32 := [10, 20, 30, 40, 50, 60, 70]

def keysFull : List UInt32 := [80, 81, 82, 83, 84, 85, 86, 90, 100, 110, 120, 130, 140]

def keysBehind : List UInt32 := [150, 160, 170, 180, 190, 200, 210]

/-- The ascending keys up to 210 make the three leaves, and the keys from 81 to 86 fill the one in the
middle. -/
def tableBetween : Table :=
  { rootPageNum := 0
    pager :=
      { numPages := 4
        pages := fun n =>
          [{ parent := 0, type := .internal, isRoot := true, num := 2, link := 3,
              body := .internal fun i => [⟨2, 70⟩, ⟨1, 140⟩].getD i ⟨0, 0⟩ },
            leafUnderRoot keysFull 3, leafUnderRoot keysBefore 1,
            leafUnderRoot keysBehind 0].getD n Page.zero } }

theorem insertable_between : Insertable tableBetween 2
    ([(2, idCells keysBefore)] ++ (1, idCells keysFull) :: [(3, idCells keysBehind)]) where
  chain :=
    { linked := ⟨rfl, rfl, hasCells_leafUnderRoot keysBefore 1, rfl, rfl,
        hasCells_leafUnderRoot keysFull 3, rfl, rfl, hasCells_leafUnderRoot keysBehind 0, rfl⟩
      nodup := by decide
      inUse := by decide
      capacity := by decide
      tail_ne_zero := by decide }
  rootPageNum := rfl
  fresh := fun n hn => List.getD_eq_default _ _ hn
  root := by decide
  parent := by decide

/-- The key 87 goes into the middle of the full leaf, between two others: that leaf is split. -/
theorem executeInsert_splices_between :
    ∃ t', exec (Table.executeInsert ⟨1, 7, false⟩ 87 { UserSchema.zero with id := 87 })
      tableBetween = (.ok (), t') ∧ t'.pager.numPages = 5 ∧
      ∃ start' lv', LeafChain t' start' lv' ∧ Leaves.cells lv' =
        idCells [10, 20, 30, 40, 50, 60, 70, 80, 81, 82, 83, 84, 85, 86, 87, 90, 100, 110, 120, 130, 140,
          150, 160, 170, 180, 190, 200, 210] := by
  have hend : (exec (Table.executeInsert ⟨1, 7, false⟩ 87 { UserSchema.zero with id := 87 })
        tableBetween).1 = .ok () ∧
      (exec (Table.executeInsert ⟨1, 7, false⟩ 87 { UserSchema.zero with id := 87 })
        tableBetween).2.pager.numPages = 5 := by
    decide +kernel
  generalize hrun : exec (Table.executeInsert ⟨1, 7, false⟩ 87 { UserSchema.zero with id := 87 })
    tableBetween = run at hend
  obtain ⟨r, t'⟩ := run
  obtain ⟨rfl, hpages⟩ : r = .ok () ∧ t'.pager.numPages = 5 := hend
  obtain ⟨start', lv', hchain, hcells, -⟩ := executeInsert_splices
    (A := [(2, idCells keysBefore)]) (B := [(3, idCells keysBehind)]) (c := ⟨1, 7, false⟩)
    insertable_between (by decide) hrun
  exact ⟨t', rfl, hpages, start', lv', hchain, hcells⟩

end CxxLab.DbLab
