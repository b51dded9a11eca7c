import CxxLab.DbLab.FileTable
import CxxLab.Lib.Simulation

/-!
# A table over a file is a table

`Stands` relates a table over a file to a `Table`: the pager refines an array of blocks, and each block
shows the page of that number. Every call on the one ends as it ends on the other and leaves tables so
related, which is proved call by call with the rules of `Sim`.

Two things have to be known on the way. A pointer must still be good, so the pages in hand are listed
(`S`); and a cell must be read as what it was written as, which comes down to where an internal page can
be: only at page 0 (`PageOk`).
-/

set_option autoImplicit false

namespace CxxLab.DbLab

open CxxLab.Lib Exec

/-! ## Printing a table -/

namespace Table

/-- The loop of `execute_select` and of `DumpTree`, with the cursors. -/
def rowsFrom : Nat → Cursor → DbM (List (Cursor × UserSchema))
  | fuel, c => do
    if c.endOfTable then
      return []
    match fuel with
    | 0 => throw .outOfFuel
    | fuel + 1 =>
      let row ← value c
      let next ← advance c
      return (c, row) :: (← rowsFrom fuel next)

/-- `Table::DumpTree`. -/
def dumpTree (fuel : Nat) : DbM (List (Cursor × UserSchema)) := do rowsFrom fuel (← startCursor)

theorem scanFrom_eq (fuel : Nat) : ∀ c, scanFrom fuel c = List.map Prod.snd <$> rowsFrom fuel c := by
  induction fuel with
  | zero =>
    intro c
    rw [scanFrom, rowsFrom]
    split
    · rw [map_pure, List.map_nil]
    · rfl
  | succ fuel ih =>
    intro c
    rw [scanFrom, rowsFrom]
    split
    · rw [map_pure, List.map_nil]
    · simp only [ih, map_eq_pure_bind, bind_assoc, pure_bind, List.map_cons]

theorem scan_eq (fuel : Nat) : scan fuel = List.map Prod.snd <$> dumpTree fuel := by
  simp only [scan, dumpTree, map_bind, scanFrom_eq]

end Table

/-! ## The relation -/

/-- What every page is like that the code of a table has made. -/
structure PageOk (n : Nat) (p : Page) : Prop where
  isRoot : p.isRoot = true → n = 0
  internal : p.type = .internal → n = 0
  cells : p.type ≠ .internal → p.num ≤ LeafPage.cellsCapacity
  keys : p.type = .internal → p.num ≤ InternalPage.maxCells

theorem leaf_ne_internal : NodeType.leaf ≠ .internal := by decide

theorem PageOk.of_leafy {n : Nat} {p : Page} (hroot : p.isRoot = true → n = 0)
    (hkind : p.type ≠ .internal) (hcells : p.num ≤ LeafPage.cellsCapacity) : PageOk n p :=
  ⟨hroot, fun h => absurd h hkind, fun _ => hcells, fun h => absurd h hkind⟩

theorem PageOk.zero (n : Nat) : PageOk n Page.zero :=
  .of_leafy (fun h => absurd h (by decide)) (by decide) (Nat.zero_le _)

/-- The table over the file is this table, and the pages `S` are in memory. -/
structure Stands (S : List Nat) (ft : FileTable) (t : Table) : Prop where
  rootPageNum : ft.rootPageNum = 0 ∧ t.rootPageNum = 0
  nonempty : 0 < t.pager.numPages
  array : ∃ a, Refines ft.pager a ∧ a.numPages = t.pager.numPages ∧
    ∀ n, (a.pages n).Shows (t.pager.pages n)
  cached : ∀ n ∈ S, (ft.pager.pages n).isSome

namespace Stands

variable {S : List Nat} {ft : FileTable} {t : Table}

theorem mono (h : Stands S ft t) {S' : List Nat} (hS : S' ⊆ S) : Stands S' ft t :=
  ⟨h.rootPageNum, h.nonempty, h.array, fun n hn => h.cached n (hS hn)⟩

theorem numPages (h : Stands S ft t) : ft.pager.numPages = t.pager.numPages := by
  obtain ⟨a, ha, hnum, -⟩ := h.array
  rw [ha.count, hnum]

theorem numPages_le (h : Stands S ft t) : t.pager.numPages ≤ maxPages := by
  obtain ⟨a, ha, hnum, -⟩ := h.array
  rw [← hnum]
  exact ha.bound

/-- A page in memory is one of the pages in use. -/
theorem lt_numPages (h : Stands S ft t) {n : Nat} (hn : n ∈ S) : n < t.pager.numPages := by
  obtain ⟨a, ha, hnum, -⟩ := h.array
  obtain ⟨b, hb⟩ := Option.isSome_iff_exists.mp (h.cached n hn)
  rw [← hnum]
  exact (ha.cached n b hb).2

/-- A page that is not in use is blank. -/
theorem fresh (h : Stands S ft t) {n : Nat} (hn : t.pager.numPages ≤ n) :
    t.pager.pages n = Page.zero := by
  obtain ⟨a, ha, hnum, hshow⟩ := h.array
  have hblock : a.pages n = Block.zero := by
    cases hp : ft.pager.pages n with
    | some b => exact absurd (ha.cached n b hp).2 (by omega)
    | none =>
      obtain ⟨k, hk, hle⟩ := ha.whole
      rw [← ha.stored n hp, readAt_of_length_le]
      rw [hk]
      exact Nat.mul_le_mul_right _ (by omega)
  have hn := hshow n
  rw [hblock] at hn
  exact hn.unique Block.shows_zero

end Stands

/-! ## Pages in hand -/

/-- The tables are the same, all pages are as they should be, and `F` holds of them. -/
def On (S : List Nat) (F : (Nat → Page) → Prop) (ft : FileTable) (t : Table) : Prop :=
  Stands S ft t ∧ (∀ n, PageOk n (t.pager.pages n)) ∧ F t.pager.pages

def Fail.isStatus : Fail → Bool
  | .status _ => true
  | _ => false

/-- After an error that is a status the tables are still the same. After any other the program is
gone. -/
def AfterError (e : Fail) (ft : FileTable) (t : Table) : Prop :=
  ∀ s, e = .status s → On [] (fun _ => True) ft t

section

variable {S S' : List Nat} {F F' : (Nat → Page) → Prop} {ft : FileTable} {t : Table}

theorem On.mono (h : On S F ft t) (hS : S' ⊆ S) (hF : ∀ f, F f → F' f) : On S' F' ft t :=
  ⟨h.1.mono hS, h.2.1, hF _ h.2.2⟩

theorem On.afterError (h : On S F ft t) (e : Fail) : AfterError e ft t :=
  fun _ _ => h.mono (List.nil_subset _) fun _ _ => trivial

theorem AfterError.of_fatal {e : Fail} (h : e.isStatus = false) : AfterError e ft t := by
  intro s hs
  cases hs
  cases h

/-- None of these pages is an internal one. -/
def Leafy (L : List Nat) (f : Nat → Page) : Prop := ∀ n ∈ L, (f n).type ≠ .internal

theorem Leafy.setAt {L : List Nat} {f : Nat → Page} (h : Leafy L f) (n : Nat) {p : Page}
    (hp : p.type ≠ .internal) : Leafy L (DbLab.setAt f n p) := by
  intro m hm
  by_cases hmn : m = n
  · rw [hmn, setAt_self]
    exact hp
  · rw [setAt_of_ne hmn]
    exact h m hm

theorem On.leafy_page {L : List Nat} {n : Nat} {p : Page}
    (h : On S (fun f => Leafy L f ∧ f n = p) ft t) (hn : n ∈ L) : p.type ≠ .internal := by
  rw [← h.2.2.2]
  exact h.2.2.1 n hn

theorem exec_onPager {α : Type} (x : Exec Fail Pager α) (s : FileTable) :
    exec (FileTable.onPager x) s = ((exec x s.pager).1, { s with pager := (exec x s.pager).2 }) := rfl

/-- `GetPage` brings its page into memory and drops none. -/
theorem isSome_getPage (s : Pager) {n : Nat} (hn : n < maxPages) (m : Nat)
    (hm : m = n ∨ (s.pages m).isSome) : ((exec (Pager.getPage n true) s).2.pages m).isSome := by
  cases hp : s.pages n with
  | some b =>
    rw [exec_getPage_cached hn hp true]
    rcases hm with rfl | hm
    · rw [hp]
      rfl
    · exact hm
  | none =>
    rw [exec_getPage_missing hn hp]
    dsimp only [setAt]
    split
    · rfl
    · rename_i hne
      exact hm.resolve_left hne

theorem Stands.getPage (h : Stands S ft t) {n : Nat} (hn : n < maxPages) :
    ∃ b s, exec (FileTable.getPage n) ft = (.ok b, s) ∧ b.Shows (t.pager.pages n) ∧
      Stands (n :: S) s { t with pager := t.pager.getPage n } := by
  obtain ⟨a, ha, hnum, hshow⟩ := h.array
  obtain ⟨p, hp, ha'⟩ := ha.getPage hn
  have hpager : (exec (Pager.getPage n true) ft.pager).2 = p := by rw [hp]
  refine ⟨a.pages n, { ft with pager := p }, by rw [FileTable.getPage, exec_onPager, hp], hshow n,
    h.rootPageNum, Nat.lt_of_lt_of_le h.nonempty (Nat.le_max_left _ _), ⟨a.getPage n, ha', ?_, hshow⟩,
    fun m hm => ?_⟩
  · show max a.numPages (n + 1) = max t.pager.numPages (n + 1)
    rw [hnum]
  · rw [← hpager]
    refine isSome_getPage ft.pager hn m ?_
    rcases List.mem_cons.mp hm with rfl | hm
    · exact Or.inl rfl
    · exact Or.inr (h.cached m hm)

theorem Stands.setPage (h : Stands S ft t) {n : Nat} (hn : n ∈ S) {b : Block} {p : Page}
    (hb : b.Shows p) :
    ∃ s, exec (FileTable.setPage n b) ft = (.ok (), s) ∧
      Stands S s { t with pager := t.pager.overwrite n p } := by
  obtain ⟨a, ha, hnum, hshow⟩ := h.array
  obtain ⟨old, hold⟩ := Option.isSome_iff_exists.mp (h.cached n hn)
  refine ⟨{ ft with pager := { ft.pager with pages := setAt ft.pager.pages n (some b) } }, ?_,
    h.rootPageNum, h.nonempty, ⟨_, ha.overwrite (h.cached n hn), hnum, fun m => ?_⟩, fun m hm => ?_⟩
  · rw [FileTable.setPage, exec_bind_ok (exec_get _), hold]
    rfl
  · show (setAt a.pages n b m).Shows (setAt t.pager.pages n p m)
    by_cases hmn : m = n
    · rw [hmn, setAt_self, setAt_self]
      exact hb
    · rw [setAt_of_ne hmn, setAt_of_ne hmn]
      exact hshow m
  · show (setAt ft.pager.pages n (some b) m).isSome
    rw [setAt]
    split
    · rfl
    · exact h.cached m hm

theorem Stands.page (h : Stands S ft t) {n : Nat} (hn : n ∈ S) :
    ∃ b, exec (FileTable.page n) ft = (.ok b, ft) ∧ b.Shows (t.pager.pages n) := by
  obtain ⟨a, ha, -, hshow⟩ := h.array
  obtain ⟨b, hb⟩ := Option.isSome_iff_exists.mp (h.cached n hn)
  refine ⟨b, by rw [FileTable.page, exec_bind_ok (exec_get _), hb]; rfl, ?_⟩
  rw [(ha.cached n b hb).1]
  exact hshow n

/-! ## The calls on pages -/

namespace Sim

theorem getPage (n : Nat) : Sim (On S F) (FileTable.getPage n) (Table.getPage n)
    (fun b p ft t => (b.Shows p ∧ PageOk n p) ∧ On (n :: S) (fun f => F f ∧ f n = p) ft t)
    AfterError := by
  intro ft t h
  by_cases hn : n < maxPages
  · obtain ⟨b, s, hb, hshow, hs⟩ := h.1.getPage hn
    have ht : exec (Table.getPage n) t =
        (.ok (t.pager.pages n), { t with pager := t.pager.getPage n }) := by
      simp only [Table.getPage, if_neg (Nat.not_le.mpr hn)]
      rfl
    rw [hb, ht]
    exact ⟨⟨hshow, h.2.1 n⟩, hs, h.2.1, h.2.2, rfl⟩
  · have hft : exec (FileTable.getPage n) ft = (.error .undefined, ft) := by
      simp only [FileTable.getPage, exec_onPager, Pager.getPage, if_pos (Nat.not_lt.mp hn)]
      rfl
    have ht : exec (Table.getPage n) t = (.error .undefined, t) := by
      simp only [Table.getPage, if_pos (Nat.not_lt.mp hn)]
      rfl
    rw [hft, ht]
    exact ⟨rfl, .of_fatal rfl⟩

theorem page {n : Nat} (hn : n ∈ S) : Sim (On S F) (FileTable.page n) (Table.page n)
    (fun b p ft t => (b.Shows p ∧ PageOk n p) ∧ On S (fun f => F f ∧ f n = p) ft t) AfterError := by
  intro ft t h
  obtain ⟨b, hb, hshow⟩ := h.1.page hn
  rw [hb]
  exact ⟨⟨hshow, h.2.1 n⟩, h.1, h.2.1, h.2.2, rfl⟩

/-- A store keeps what is said of the pages if it keeps it of the new array. -/
theorem setPage (F' : (Nat → Page) → Prop) {n : Nat} {b : Block} {p : Page} (hn : n ∈ S) (hb : b.Shows p) (hp : PageOk n p)
    (hF : ∀ f, (∀ m, PageOk m (f m)) → F f → F' (setAt f n p)) :
    Sim (On S F) (FileTable.setPage n b) (Table.setPage n p) (fun _ _ => On S F') AfterError := by
  intro ft t h
  obtain ⟨s, hs, hstands⟩ := h.1.setPage hn hb
  rw [hs, Table.exec_setPage]
  refine ⟨hstands, fun m => ?_, hF _ h.2.1 h.2.2⟩
  show PageOk m (setAt t.pager.pages n p m)
  by_cases hmn : m = n
  · rw [hmn, setAt_self]
    exact hp
  · rw [setAt_of_ne hmn]
    exact h.2.1 m

theorem check {α β : Type} {R : α → β → Prop} {x : Except Fail α} {y : Except StatusType β}
    (hxy : Block.Alike R x y) : Sim (On S F) (FileTable.check x) (Table.check y)
      (fun a b ft t => (R a b ∧ y = .ok b) ∧ On S F ft t) AfterError := by
  intro ft t h
  cases hxy with
  | ok hab => exact ⟨⟨hab, rfl⟩, h⟩
  | error e => exact ⟨rfl, h.afterError _⟩

theorem found {P : FileTable → Table → Prop} (o : Option Nat) :
    Sim P (FileTable.found o) (Table.found o) (fun i j ft t => i = j ∧ P ft t) AfterError := by
  intro ft t h
  cases o with
  | none => exact ⟨rfl, .of_fatal rfl⟩
  | some i => exact ⟨rfl, h⟩

/-- `Cursor::GetLeafPage`, of a page that is not an internal one. -/
theorem getLeafPage {n : Nat} {L : List Nat} (hn : n ∈ L) :
    Sim (On S (Leafy L)) (FileTable.getLeafPage n) (Table.getLeafPage n)
      (fun b p ft t => (b.Shows p ∧ PageOk n p ∧ p.type = .leaf) ∧
        On (n :: S) (fun f => Leafy L f ∧ f n = p) ft t) AfterError := by
  rw [FileTable.getLeafPage, Table.getLeafPage]
  refine .bind_and (getPage n) fun b p hbp => ?_
  obtain ⟨hb, hp⟩ := hbp
  refine .of_fact (fun ft t h => h.leafy_page hn) fun hp' => ?_
  refine .ite (by rw [hb.isDirty]) (fun hdirty => ?_) fun hdirty => ?_
  · refine .pure fun ft t h => ⟨⟨hb, hp, ?_⟩, h⟩
    rw [hb.isDirty, Page.isDirty] at hdirty
    cases htype : p.type with
    | none => rw [htype] at hdirty; cases hdirty
    | leaf => rfl
    | internal => exact absurd htype hp'
  · have hleaf : p.leafReset.type ≠ .internal := leaf_ne_internal
    have hreset : PageOk n p.leafReset := .of_leafy hp.isRoot hleaf (Nat.zero_le _)
    refine .bind (setPage (fun f => Leafy L f ∧ f n = p.leafReset) List.mem_cons_self
      (hb.leafReset hp') hreset fun f _ hf => ⟨hf.1.setAt _ hleaf, setAt_self _ _ _⟩) fun _ _ => ?_
    exact .pure fun ft t h => ⟨⟨hb.leafReset hp', hreset, rfl⟩, h⟩

/-! ## Looking up -/

theorem leafPageFind {b : Block} {p : Page} (hb : b.Shows p) (hkind : p.type ≠ .internal)
    {n : Nat} (hp : PageOk n p) (key : UInt32) (hF : ∀ f, F f → f n = p) :
    Sim (On S F) (FileTable.leafPageFind n b key) (Table.leafPageFind n p key)
      (fun c c' ft t => (c = c' ∧ c'.cellNum ≤ LeafPage.cellsCapacity) ∧
        On S (fun f => F f ∧ Leafy [c'.pageNum] f) ft t) AfterError := by
  have hnum := hp.cells hkind
  obtain ⟨i, hi, hle⟩ : ∃ i, p.leafFindCell key = some i ∧ i ≤ p.num := by
    apply bisect_isSome
    intro c hc
    simp only [Page.leafProbe, Page.getCellKeyVal, (Page.leafCellOk_iff c).mpr (by omega), if_true]
    split <;> (try split) <;> simp
  rw [FileTable.leafPageFind, Table.leafPageFind, hb.leafFindCell hkind, hi]
  refine .pure fun ft t h => ⟨⟨rfl, Nat.le_trans hle hnum⟩, h.1, h.2.1, h.2.2, fun m hm => ?_⟩
  cases List.mem_singleton.mp hm
  rw [hF _ h.2.2]
  exact hkind

/-- The walk down the tree. -/
theorem internalPageFind (key : UInt32) : ∀ (fuel : Nat) {S : List Nat} {b : Block} {p : Page},
    b.Shows p → p.type = .internal →
      Sim (On S F) (FileTable.internalPageFind key fuel b) (Table.internalPageFind key fuel p)
        (fun c c' ft t => (c = c' ∧ c'.cellNum ≤ LeafPage.cellsCapacity) ∧
          On S (fun f => F f ∧ Leafy [c'.pageNum] f) ft t) AfterError := by
  intro fuel
  induction fuel with
  | zero => intro S b p _ _; exact .throw fun _ _ _ => .of_fatal rfl
  | succ fuel ih =>
    intro S b p hb hkind
    rw [FileTable.internalPageFind, Table.internalPageFind, hb.internalFindCell hkind]
    refine .bind_and (found _) fun i j hij => ?_
    subst hij
    refine .bind_and (check (hb.getChildPageNum hkind i)) fun n m hnm => ?_
    obtain ⟨rfl, -⟩ := hnm
    refine .bind_and (getPage n) fun sub q hsub => ?_
    obtain ⟨hsub, hok⟩ := hsub
    rw [hsub.hasType, hsub.hasType]
    cases hq : q.type with
    | leaf =>
      refine (leafPageFind hsub (by rw [hq]; decide) hok key fun f hf => hf.2).post ?_
      exact fun c c' ft t h =>
        ⟨h.1, h.2.mono (List.subset_cons_self _ _) fun f hf => ⟨hf.1.1, hf.2⟩⟩
    | internal =>
      refine ((ih hsub hq).pre fun ft t h => h.mono (List.Subset.refl _) fun f hf => hf.1).post ?_
      exact fun c c' ft t h => ⟨h.1, h.2.mono (List.subset_cons_self _ _) fun _ hf => hf⟩
    | none => exact .throw fun ft t h => h.afterError _

/-- `Table::Find`: the same cursor, or none on either. -/
theorem find (key : UInt32) : Sim (On S F) (FileTable.find key) (Table.find key)
    (fun o o' ft t => (o = o' ∧ ∀ c ∈ o', c.cellNum ≤ LeafPage.cellsCapacity) ∧
      On [] (fun _ => True) ft t ∧ ∀ c ∈ o', On S (fun f => F f ∧ Leafy [c.pageNum] f) ft t)
    AfterError := by
  rw [FileTable.find, Table.find]
  refine .get_bind fun s t hst => ?_
  have hroot : s.rootPageNum = t.rootPageNum := by
    rw [hst.1.rootPageNum.1, hst.1.rootPageNum.2]
  rw [hroot, hst.1.numPages]
  refine .of_eq hst ?_
  refine .bind_and (getPage t.rootPageNum) fun b p hbp => ?_
  obtain ⟨hb, hok⟩ := hbp
  have hfound : ∀ (c c' : Cursor) (s : FileTable) (t' : Table),
      (c = c' ∧ c'.cellNum ≤ LeafPage.cellsCapacity) ∧ On (t.rootPageNum :: S)
        (fun f => (F f ∧ f t.rootPageNum = p) ∧ Leafy [c'.pageNum] f) s t' →
      (some c = some c' ∧ ∀ d ∈ some c', d.cellNum ≤ LeafPage.cellsCapacity) ∧
        On [] (fun _ => True) s t' ∧
          ∀ d ∈ some c', On S (fun f => F f ∧ Leafy [d.pageNum] f) s t' := by
    rintro c c' s t' ⟨⟨rfl, hc⟩, h⟩
    refine ⟨⟨rfl, fun d hd => ?_⟩, h.mono (List.nil_subset _) fun _ _ => trivial, fun d hd => ?_⟩
    · cases hd
      exact hc
    · cases hd
      exact h.mono (List.subset_cons_self _ _) fun f hf => ⟨hf.1.1, hf.2⟩
  have hnull : ∀ {P : Cursor → Prop}, ∀ c ∈ (none : Option Cursor), P c := by
    intro P c hc
    cases hc
  rw [hb.hasType, hb.hasType]
  cases hp : p.type with
  | internal =>
    refine .tryCatch (.map (internalPageFind key _ hb hp) hfound) fun e => ?_
    -- A status becomes a null pointer.
    cases e with
    | status s => exact .pure fun ft t h => ⟨⟨rfl, hnull⟩, h s rfl, hnull⟩
    | assertion => exact .throw fun _ _ _ => .of_fatal rfl
    | undefined => exact .throw fun _ _ _ => .of_fatal rfl
    | outOfFuel => exact .throw fun _ _ _ => .of_fatal rfl
  | leaf => exact .map (leafPageFind hb (by rw [hp]; decide) hok key fun f hf => hf.2) hfound
  | none =>
    exact .pure fun s t h =>
      ⟨⟨rfl, hnull⟩, h.mono (List.nil_subset _) fun _ _ => trivial, hnull⟩

/-! ## Scanning -/

theorem getCursorPage (n : Nat) :
    Sim (On S (Leafy [n])) (FileTable.getLeafPage n) (Table.getLeafPage n)
      (fun b p ft t => (b.Shows p ∧ PageOk n p ∧ p.type = .leaf) ∧ On S (Leafy [n]) ft t)
      AfterError :=
  (getLeafPage List.mem_cons_self).post fun _ _ _ _ h =>
    ⟨h.1, h.2.mono (List.subset_cons_self _ _) fun _ hf => hf.1⟩

/-- `Cursor::Value`. -/
theorem value (c : Cursor) : Sim (On S (Leafy [c.pageNum])) (FileTable.value c) (Table.value c)
    (fun r u ft t => r.user = u ∧ On S (Leafy [c.pageNum]) ft t) AfterError := by
  rw [FileTable.value, Table.value]
  refine .bind_and (getCursorPage c.pageNum) fun b p hbp => ?_
  obtain ⟨hb, -, hleaf⟩ := hbp
  by_cases hcell : Page.leafCellOk c.cellNum = true
  · rw [Block.leafCellPtr, if_pos hcell, if_pos hcell]
    refine .pure fun ft t h => ⟨?_, h⟩
    rw [← hb.leafCell (by rw [hleaf]; decide) hcell]
    rfl
  · rw [Block.leafCellPtr, if_neg hcell, if_neg hcell]
    exact .throw fun _ _ _ => .of_fatal rfl

/-- `Cursor::Advance`. A `next_leaf` that is not 0 cannot lead to an internal page. -/
theorem advance (c : Cursor) :
    Sim (On S (Leafy [c.pageNum])) (FileTable.advance c) (Table.advance c)
      (fun d d' ft t => d = d' ∧ On S (Leafy [d'.pageNum]) ft t) AfterError := by
  rw [FileTable.advance, Table.advance]
  refine .ite Iff.rfl (fun _ => .throw_bind fun _ _ h => h.afterError _) fun _ => ?_
  refine .bind_and (getCursorPage c.pageNum) fun b p hbp => ?_
  obtain ⟨hb, -, hleaf⟩ := hbp
  rw [hb.num, hb.link]
  refine .ite Iff.rfl (fun _ => ?_) fun _ => .pure fun _ _ h => ⟨rfl, h⟩
  refine .ite Iff.rfl (fun _ => .pure fun _ _ h => ⟨rfl, h⟩) fun hlink => ?_
  refine .pure fun _ _ h => ⟨rfl, h.1, h.2.1, fun m hm htype => hlink ?_⟩
  rw [List.mem_singleton.mp hm] at htype
  exact (h.2.1 p.link).internal htype

/-- `Table::StartCursor`. -/
theorem startCursor : Sim (On [] fun _ => True) FileTable.startCursor Table.startCursor
    (fun c c' ft t => c = c' ∧ On [] (Leafy [c'.pageNum]) ft t) AfterError := by
  rw [FileTable.startCursor, Table.startCursor]
  refine .bind_and (find 0) fun o o' ho => ?_
  obtain ⟨rfl, -⟩ := ho
  cases o with
  | none => exact .throw fun _ _ _ => .of_fatal rfl
  | some c =>
    refine .bind_and ((getCursorPage c.pageNum).pre fun ft t h =>
      (h.2 c rfl).mono (List.Subset.refl _) fun f hf => hf.2) fun b p hbp => ?_
    rw [hbp.1.num]
    exact .pure fun _ _ h => ⟨rfl, h⟩

/-- The loop of a scan. -/
theorem rowsFrom : ∀ (fuel : Nat) (c : Cursor),
    Sim (On [] (Leafy [c.pageNum])) (FileTable.rowsFrom fuel c) (Table.rowsFrom fuel c)
      (fun rows users ft t => rows.map (Prod.map id Row.user) = users ∧ On [] (fun _ => True) ft t)
      AfterError := by
  intro fuel
  induction fuel with
  | zero =>
    intro c
    rw [FileTable.rowsFrom, Table.rowsFrom]
    refine .ite Iff.rfl (fun _ => .pure fun _ _ h => ?_) fun _ => .throw fun _ _ _ => .of_fatal rfl
    exact ⟨rfl, h.mono (List.Subset.refl _) fun _ _ => trivial⟩
  | succ fuel ih =>
    intro c
    rw [FileTable.rowsFrom, Table.rowsFrom]
    refine .ite Iff.rfl (fun _ => .pure fun _ _ h => ?_) fun _ => ?_
    · exact ⟨rfl, h.mono (List.Subset.refl _) fun _ _ => trivial⟩
    · refine .bind_and (value c) fun row user hrow => ?_
      refine .bind_and (advance c) fun d d' hd => ?_
      subst hd
      refine .bind_and (ih d) fun rows users hrows => .pure fun _ _ h => ⟨?_, h⟩
      rw [List.map_cons, hrows, Prod.map_apply, hrow, id]

/-- `Table::DumpTree`: the same rows in the same places. -/
theorem dumpTree (fuel : Nat) :
    Sim (On [] fun _ => True) (FileTable.dumpTree fuel) (Table.dumpTree fuel)
      (fun rows users ft t => rows.map (Prod.map id Row.user) = users ∧ On [] (fun _ => True) ft t)
      AfterError := by
  rw [FileTable.dumpTree, Table.dumpTree]
  refine .bind_and startCursor fun c c' hc => ?_
  subst hc
  exact rowsFrom fuel c

/-- **A scan of the file** gives the rows of the table. -/
theorem scan (fuel : Nat) : Sim (On [] fun _ => True) (FileTable.scan fuel) (Table.scan fuel)
    (fun rows users ft t => rows.map Row.user = users ∧ On [] (fun _ => True) ft t) AfterError := by
  rw [FileTable.scan, Table.scan_eq]
  refine .map (dumpTree fuel) fun rows users ft t h => ⟨?_, h.2⟩
  rw [← h.1, List.map_map, List.map_map]
  rfl

end Sim

/-! ## Splitting -/

/-- The block is this page, an internal one with so many keys. -/
def Internal (num : Nat) (b : Block) (p : Page) : Prop :=
  b.Shows p ∧ p.type = .internal ∧ p.num = num

namespace Internal

variable {num : Nat} {b : Block} {p : Page}

theorem setKey (h : Internal num b p) (i : Nat) (key : UInt32) :
    Block.Alike (Internal num) (b.setKey i key) (p.setKey i key) := by
  refine (h.1.setKey h.2.1 i key).and fun q hq => ?_
  rw [Page.setKey] at hq
  split at hq
  · cases hq
    exact h.2
  · cases hq

theorem setChild (h : Internal num b p) (i : Nat) {child : Nat} (hchild : child < 2 ^ 32) :
    Block.Alike (Internal num) (b.setChild i child) (p.setChild i child) := by
  refine (h.1.setChild h.2.1 i hchild).and fun q hq => ?_
  rw [Page.setChild] at hq
  split at hq
  · cases hq
  · split at hq
    · cases hq
      exact h.2
    · split at hq
      · cases hq
        exact h.2
      · cases hq

theorem setLink (h : Internal num b p) {n : Nat} (hn : n < 2 ^ 32) :
    Internal num (b.setLink n) { p with link := n } :=
  ⟨h.1.setLink hn, h.2⟩

theorem shiftSlots (h : Internal num b p) (index : Nat) {n : Nat}
    (hn : n ≤ InternalPage.maxCells) :
    Internal num (b.shiftSlots index n) (p.setSlots (shiftUp index n p.slots)) :=
  ⟨Block.Shows.shiftSlots index n h.1 h.2.1 ((Page.slotOk_iff n).mpr hn), h.2⟩

theorem pageOk (h : Internal num b p) (hnum : num ≤ InternalPage.maxCells) : PageOk 0 p :=
  ⟨fun _ => rfl, fun _ => rfl, fun hkind => absurd h.2.1 hkind, fun _ => h.2.2 ▸ hnum⟩

end Internal

namespace Sim

theorem getMaxKey {n : Nat} {b : Block} {p : Page} (hb : b.Shows p) (hp : PageOk n p) :
    Sim (On S F) (FileTable.check b.getMaxKey) (Table.check p.getMaxKey)
      (fun k k' ft t => k = k' ∧ On S F ft t) AfterError :=
  (check (hb.getMaxKey (fun h => hp.cells (by rw [h]; decide))
    fun h => Nat.le_succ_of_le (hp.keys h))).post fun _ _ _ _ h => ⟨h.1.1, h.2⟩

/-- The page at 0, when it is known to be internal. -/
theorem pageInternal (hparent : 0 ∈ S) {p : Page} {num : Nat} (htype : p.type = .internal)
    (hnum : p.num = num) :
    Sim (On S fun f => f 0 = p) (FileTable.page 0) (Table.page 0)
      (fun b q ft t => (Internal num b q ∧ q = p) ∧ On S (fun f => f 0 = p) ft t) AfterError :=
  (page hparent).post fun b q ft t h => by
    have hq : q = p := h.2.2.2.2.symm.trans h.2.2.2.1
    subst hq
    exact ⟨⟨⟨h.1.1, htype, hnum⟩, rfl⟩, h.2.mono (List.Subset.refl _) fun _ hf => hf.2⟩

theorem setInternal {num : Nat} {b : Block} {p : Page} (hparent : 0 ∈ S) (hb : Internal num b p)
    (hnum : num ≤ InternalPage.maxCells) :
    Sim (On S F) (FileTable.setPage 0 b) (Table.setPage 0 p)
      (fun _ _ => On S fun f => f 0 = p) AfterError :=
  setPage _ hparent hb.1 (hb.pageOk hnum) fun _ _ _ => setAt_self _ _ _

theorem insertInternal {child : Nat} (hparent : 0 ∈ S) (hchild : child ∈ S) :
    Sim (On S fun f => (f 0).type = .internal) (FileTable.insertInternal 0 child)
      (Table.insertInternal 0 child) (fun _ _ => On [] fun _ => True) AfterError := by
  rw [FileTable.insertInternal, Table.insertInternal]
  refine .of_fact (fun ft t h => Nat.lt_of_lt_of_le (h.1.lt_numPages hchild) h.1.numPages_le)
    fun hmax => ?_
  have hlt : child < 2 ^ 32 := Nat.lt_trans hmax (by decide)
  refine .bind_and (page hchild) fun b p hbp => ?_
  refine .bind_and (getMaxKey hbp.1 hbp.2) fun maxKey k hk => ?_
  subst hk
  refine .bind_and (page hparent) fun b p hbp => ?_
  obtain ⟨hb, hp⟩ := hbp
  refine .of_fact (φ := p.type = .internal) (fun ft t h => by rw [← h.2.2.2]; exact h.2.2.1.1)
    fun htype => ?_
  rw [hb.num]
  refine Sim.pre (?_ : Sim (On S fun f => f 0 = p) _ _ _ _) fun ft t h =>
    h.mono (List.Subset.refl _) fun f hf => hf.2
  by_cases hroom : p.num < InternalPage.maxCells
  · refine .bind_and (pageInternal hparent htype rfl) fun b' q hq => ?_
    obtain ⟨hb', rfl⟩ := hq
    have hnum : q.num + 1 ≤ InternalPage.maxCells := hroom
    have hraised : Internal (q.num + 1) (b'.setNum (q.num + 1)) { q with num := q.num + 1 } :=
      ⟨hb'.1.setNum (Nat.lt_of_le_of_lt hnum (by decide)), htype, rfl⟩
    refine .bind (setInternal hparent hraised hnum) fun _ _ => ?_
    refine .bind_and (pageInternal hparent hraised.2.1 hraised.2.2) fun b₁ p₁ hp₁ => ?_
    obtain ⟨hb₁, rfl⟩ := hp₁
    rw [hb₁.1.internalFindCell htype]
    refine .bind_and (found _) fun index j hij => ?_
    subst hij
    refine .ite Iff.rfl (fun hfull => absurd hroom (Nat.not_lt.mpr hfull)) fun _ => ?_
    refine .bind_and (pageInternal hparent hraised.2.1 hraised.2.2) fun b₂ p₂ hp₂ => ?_
    obtain ⟨hb₂, rfl⟩ := hp₂
    have hlink : b₂.link < 2 ^ 32 := UInt32.toNat_lt _
    rw [← hb₂.1.link]
    refine .bind_and (getPage b₂.link) fun bR pR hR => ?_
    refine .bind_and (getMaxKey hR.1 hR.2) fun rightMax k hk => ?_
    subst hk
    refine .bind_and ((pageInternal (List.mem_cons_of_mem _ hparent) hraised.2.1 hraised.2.2).pre fun ft t h =>
      h.mono (List.Subset.refl _) fun f hf => hf.1) fun b₃ p₃ hp₃ => ?_
    obtain ⟨hb₃, rfl⟩ := hp₃
    have hin : 0 ∈ b₂.link :: S := List.mem_cons_of_mem _ hparent
    refine .ite Iff.rfl (fun _ => ?_) fun _ => ?_
    · -- The new page is behind all others and becomes the right child.
      have hkey := (hb₃.setKey q.num rightMax).getD hb₃
      have hset := ((hkey.setChild q.num hlink).getD hkey).setLink hlt
      exact (setInternal hin hset hnum).post fun _ _ _ _ h =>
        h.mono (List.nil_subset _) fun _ _ => trivial
    · -- It gets a slot among the keys.
      have hshift := hb₃.shiftSlots index (Nat.le_of_lt hroom)
      refine .bind (setInternal hin hshift hnum) fun _ _ => ?_
      refine .bind_and (pageInternal hin hshift.2.1 hshift.2.2) fun b₄ p₄ hp₄ => ?_
      obtain ⟨hb₄, rfl⟩ := hp₄
      refine .bind_and (check (hb₄.setKey index maxKey)) fun b₅ p₅ hp₅ => ?_
      refine .bind (setInternal hin hp₅.1 hnum) fun _ _ => ?_
      refine .bind_and (check (hp₅.1.setChild index hlt)) fun b₆ p₆ hp₆ => ?_
      exact (setInternal hin hp₆.1 hnum).post fun _ _ _ _ h =>
        h.mono (List.nil_subset _) fun _ _ => trivial
  · -- The search may end or not, and then the assertion fails.
    have hfull : p.num = InternalPage.maxCells := Nat.le_antisymm (hp.keys htype) (Nat.not_lt.mp hroom)
    intro ft t h
    obtain ⟨b₁, hb₁, hshow₁⟩ := h.1.page hparent
    rw [h.2.2] at hshow₁
    have hraised := hshow₁.setNum (n := p.num + 1) (by rw [hfull]; decide)
    obtain ⟨s, hs, hstands⟩ := h.1.setPage hparent hraised
    obtain ⟨b₂, hb₂, hshow₂⟩ := hstands.page hparent
    have hpage : ((t.store 0 { p with num := p.num + 1 }).pager.pages 0) =
        { p with num := p.num + 1 } := by
      rw [Table.pages_store, setAt_self]
    rw [Table.store] at hpage
    rw [hpage] at hshow₂
    rw [exec_bind_ok hb₁, exec_bind_ok hs, exec_bind_ok hb₂, exec_bind_ok (Table.exec_page 0 t), h.2.2,
      exec_bind_ok (Table.exec_setPage 0 _ t), exec_bind_ok (Table.exec_page 0 _),
      Table.pages_store, setAt_self, hshow₂.internalFindCell htype]
    refine Sim.bind_and (found (P := fun _ _ => True) _) (fun index j hij => ?_) _ _ trivial
    exact .ite Iff.rfl (fun _ => .throw_bind fun _ _ _ => .of_fatal rfl) fun hno =>
      absurd (Nat.le_of_eq hfull.symm) hno

/-- A page that is a leaf or blank stays one when its header is changed. -/
theorem setLeafy {L : List Nat} (L' : List Nat) {n : Nat} {b : Block} {p : Page} (hn : n ∈ S) (hb : b.Shows p)
    (hp : PageOk n p) (hkind : p.type ≠ .internal) (hL : L' ⊆ n :: L) :
    Sim (On S (Leafy L)) (FileTable.setPage n b) (Table.setPage n p)
      (fun _ _ => On S (Leafy L')) AfterError :=
  setPage _ hn hb hp fun f _ hf m hm => by
    by_cases hmn : m = n
    · rw [hmn, setAt_self]
      exact hkind
    · rw [setAt_of_ne hmn]
      exact hf m ((List.mem_cons.mp (hL hm)).resolve_left hmn)

theorem setRootPage {L : List Nat} {num : Nat} {b : Block} {p : Page} (hroot : 0 ∈ S)
    (hb : Internal num b p) (hnum : num ≤ InternalPage.maxCells) (h0 : 0 ∉ L) :
    Sim (On S (Leafy L)) (FileTable.setPage 0 b) (Table.setPage 0 p)
      (fun _ _ => On S (Leafy L)) AfterError :=
  setPage _ hroot hb.1 (hb.pageOk hnum) fun f _ hf m hm => by
    have hne : m ≠ 0 := fun h => h0 (h ▸ hm)
    rw [setAt_of_ne hne]
    exact hf m hm

/-- A page in hand that is known not to be internal. -/
theorem pageLeafy {L : List Nat} {n : Nat} (hn : n ∈ S) (hL : n ∈ L) :
    Sim (On S (Leafy L)) (FileTable.page n) (Table.page n)
      (fun b p ft t => (b.Shows p ∧ PageOk n p ∧ p.type ≠ .internal) ∧ On S (Leafy L) ft t)
      AfterError :=
  (page hn).post fun _ _ _ _ h =>
    ⟨⟨h.1.1, h.1.2, h.2.leafy_page hL⟩, h.2.mono (List.Subset.refl _) fun _ hf => hf.1⟩

theorem leafGetMaxKey {n : Nat} {b : Block} {p : Page} (hb : b.Shows p) (hp : PageOk n p)
    (hkind : p.type ≠ .internal) :
    Sim (On S F) (FileTable.check b.leafGetMaxKey) (Table.check p.leafGetMaxKey)
      (fun k k' ft t => k = k' ∧ On S F ft t) AfterError :=
  (check (hb.leafGetMaxKey hkind (hp.cells hkind))).post fun _ _ _ _ h => ⟨h.1.1, h.2⟩

/-- `Table::SplitRoot`. -/
theorem splitRoot {n : Nat} (hn : n ∈ S) (hn0 : n ≠ 0) :
    Sim (On S (Leafy [0, n])) (FileTable.splitRoot n) (Table.splitRoot n)
      (fun _ _ => On [] fun _ => True) AfterError := by
  rw [FileTable.splitRoot, Table.splitRoot]
  refine .get_bind fun s t hst => ?_
  rw [hst.1.rootPageNum.1, hst.1.rootPageNum.2]
  refine .of_eq hst (.get_bind fun s t hst => ?_)
  rw [hst.1.numPages]
  generalize hleft : t.pager.numPages = left
  have hmax : left ≤ maxPages := hleft ▸ hst.1.numPages_le
  have hlt : n < left := hleft ▸ hst.1.lt_numPages hn
  have hwords : left < 2 ^ 32 ∧ n < 2 ^ 32 :=
    ⟨Nat.lt_of_le_of_lt hmax (by decide),
      Nat.lt_trans (Nat.lt_of_lt_of_le hlt hmax) (by decide)⟩
  have hleft0 : left ≠ 0 := by omega
  refine .of_eq hst ?_
  refine .bind_and (getPage 0) fun b p hbp => ?_
  obtain ⟨hb, hp⟩ := hbp
  refine .of_fact (fun ft t h => h.leafy_page (by simp)) fun hkind => ?_
  refine .bind_and (getPage left) fun _ _ _ => ?_
  refine .bind_and (getPage n) fun _ _ _ => ?_
  refine Sim.pre (?_ : Sim (On (n :: left :: 0 :: S) (Leafy [0, n])) _ _ _ _) fun ft t h =>
    h.mono (List.Subset.refl _) fun f hf => hf.1.1.1
  have hin : n ∈ n :: left :: 0 :: S ∧ left ∈ n :: left :: 0 :: S ∧ 0 ∈ n :: left :: 0 :: S := by
    simp
  rw [hb.isRoot_eq]
  refine .ite Iff.rfl (fun _ => ?_) fun _ => .throw_bind fun _ _ h => h.afterError _
  -- The left child is a copy of the root.
  refine .bind (setLeafy [n, left] hin.2.1 (hb.setRoot false)
    (.of_leafy (fun h => absurd h Bool.false_ne_true) hkind (hp.cells hkind)) hkind (by simp))
    fun _ _ => ?_
  -- The root becomes the internal page over the two.
  have h0 : 0 ∉ [n, left] := by simp [hn0.symm, hleft0.symm]
  have hreset : Internal 1 ((b.internalReset.setRoot true).setNum 1)
      { p.internalReset with isRoot := true, num := 1 } :=
    ⟨(hb.internalReset.setRoot true).setNum (by decide), rfl, rfl⟩
  have hchild := (hreset.setChild 0 hwords.1).getD hreset
  refine .bind (setRootPage hin.2.2 hchild (by decide) h0) fun _ _ => ?_
  refine .bind_and (pageLeafy hin.2.1 (by simp)) fun b₁ p₁ h₁ => ?_
  refine .bind_and (leafGetMaxKey h₁.1 h₁.2.1 h₁.2.2) fun leftMaxKey k hk => ?_
  subst hk
  refine .bind_and (check (hchild.setKey 0 leftMaxKey)) fun b₂ p₂ h₂ => ?_
  refine .bind (setRootPage hin.2.2 (h₂.1.setLink hwords.2) (by decide) h0) fun _ _ => ?_
  -- The two leaves learn their parent.
  refine .bind_and (pageLeafy hin.2.1 (by simp)) fun b₃ p₃ h₃ => ?_
  refine .bind (setLeafy [n, left] hin.2.1 (h₃.1.setParentPage (n := 0) (by decide))
    ⟨h₃.2.1.isRoot, h₃.2.1.internal, h₃.2.1.cells, h₃.2.1.keys⟩ h₃.2.2 (by simp)) fun _ _ => ?_
  refine .bind_and (pageLeafy hin.1 (by simp)) fun b₄ p₄ h₄ => ?_
  exact (setLeafy [] hin.1 (h₄.1.setParentPage (n := 0) (by decide))
    ⟨h₄.2.1.isRoot, h₄.2.1.internal, h₄.2.1.cells, h₄.2.1.keys⟩ h₄.2.2
    (List.nil_subset _)).post fun _ _ _ _ h => h.mono (List.nil_subset _) fun _ _ => trivial

end Sim

/-! ## The copy loop -/

/-- The block is this page, and the page has the header of `p₀` and is not internal. -/
def Copies (p₀ : Page) (b : Block) (p : Page) : Prop :=
  b.Shows p ∧ p₀.SameHeader p ∧ p.type ≠ .internal

theorem Copies.of_putCell {p₀ p : Page} {b b' : Block} {i : Nat} {c : LeafCell} (h : Copies p₀ b p)
    (hb : b'.Shows (p.putCell i c)) : Copies p₀ b' (p.putCell i c) :=
  ⟨hb, h.2.1.trans (.putCell p i c), h.2.2⟩

/-- What the copy loop leaves, with a new number of cells. -/
theorem PageOk.refilled {n num : Nat} {p₀ p : Page} {b : Block} (hp : PageOk n p₀)
    (h : Copies p₀ b p) (hnum : num ≤ LeafPage.cellsCapacity) : PageOk n { p with num := num } :=
  ⟨fun hroot => hp.isRoot (h.2.1.isRoot ▸ hroot), fun hkind => absurd hkind h.2.2, fun _ => hnum,
    fun hkind => absurd hkind h.2.2⟩

theorem PageOk.copied {n : Nat} {p₀ p : Page} {b : Block} (hp : PageOk n p₀) (h : Copies p₀ b p) :
    PageOk n p := by
  have hnum : p.num ≤ LeafPage.cellsCapacity := by
    rw [h.2.1.num]
    exact hp.cells (h.2.1.type ▸ h.2.2)
  exact hp.refilled h hnum

theorem Copies.putKey {p₀ p : Page} {b : Block} (h : Copies p₀ b p) (i : Nat) (key : UInt32) :
    Block.Alike (Copies p₀) (b.putKey i key) (p.putKey i key) := by
  refine (h.1.putKey h.2.2 i key).and fun q hq => ?_
  rw [Page.putKey] at hq
  split at hq
  · cases hq
    exact ⟨h.2.1.trans (.putCell _ _ _), h.2.2⟩
  · cases hq

theorem Copies.putVal {p₀ p : Page} {b : Block} (h : Copies p₀ b p) (i : Nat) (row : Row) :
    Block.Alike (Copies p₀) (b.putVal i row) (p.putVal i row.user) := by
  refine (h.1.putVal h.2.2 i row).and fun q hq => ?_
  rw [Page.putVal] at hq
  split at hq
  · cases hq
    exact ⟨h.2.1.trans (.putCell _ _ _), h.2.2⟩
  · cases hq

/-- One turn writes to one cell of the destination. -/
theorem splitCell_alike {p₀ q₀ p q : Page} {b d : Block} {cellNum i : Nat} (key : UInt32) (row : Row)
    (hb : Copies p₀ b p) (hd : Copies q₀ d q) (hi : i ≤ LeafPage.cellsCapacity)
    (hcell : cellNum ≤ LeafPage.cellsCapacity) :
    Block.Alike (Copies q₀) (FileTable.splitCell cellNum key row i b d)
      (Table.splitCell cellNum key row.user i p q) := by
  rw [FileTable.splitCell, Table.splitCell, Block.leafCellPtr]
  have hcap : LeafPage.cellsCapacity = 13 := cellsCapacity_eq
  by_cases hn : Page.leafCellOk (i % LeafPage.leftSplitCount) = true
  · rw [if_pos hn]
    simp only [Option.isNone_some, hn, Bool.not_true, Bool.false_eq_true, if_false]
    by_cases hgt : i > cellNum
    · rw [if_pos hgt, if_pos hgt]
      exact .ok (hd.of_putCell (hd.1.copyLeafCell hd.2.2 hb.1 hb.2.2 hn
        ((Page.leafCellOk_iff _).mpr (by omega))))
    · rw [if_neg hgt, if_neg hgt]
      by_cases hlt : i < cellNum
      · rw [if_pos hlt, if_pos hlt]
        exact .ok (hd.of_putCell (hd.1.copyLeafCell hd.2.2 hb.1 hb.2.2 hn
          ((Page.leafCellOk_iff _).mpr (by omega))))
      · rw [if_neg hlt, if_neg hlt]
        exact (hd.putKey _ key).bind fun b' q' hb' _ => hb'.putVal _ row
  · rw [if_neg hn]
    simp only [Option.isNone_none, hn, Bool.not_false, if_true]
    exact .error _

/-- The page that is written to is one or the other. -/
theorem splitStep_alike {p₀ q₀ : Page} {bs : Block × Block} {ps : Page × Page} {cellNum i : Nat}
    (key : UInt32) (row : Row) (hcurr : Copies p₀ bs.1 ps.1) (hnext : Copies q₀ bs.2 ps.2)
    (hi : i ≤ LeafPage.cellsCapacity) (hcell : cellNum ≤ LeafPage.cellsCapacity) :
    Block.Alike (fun bs ps => Copies p₀ bs.1 ps.1 ∧ Copies q₀ bs.2 ps.2)
      (FileTable.splitStep cellNum key row i bs) (Table.splitStep cellNum key row.user i ps) := by
  rw [FileTable.splitStep, Table.splitStep]
  split
  · exact (splitCell_alike key row hcurr hnext hi hcell).map fun _ _ h => ⟨hcurr, h⟩
  · exact (splitCell_alike key row hcurr hcurr hi hcell).map fun _ _ h => ⟨h, hnext⟩

theorem splitLoop_alike {p₀ q₀ : Page} {cellNum : Nat} (key : UInt32) (row : Row)
    (hcell : cellNum ≤ LeafPage.cellsCapacity) : ∀ (i : Nat) {bs : Block × Block} {ps : Page × Page},
    Copies p₀ bs.1 ps.1 → Copies q₀ bs.2 ps.2 → i ≤ LeafPage.cellsCapacity →
      Block.Alike (fun bs ps => Copies p₀ bs.1 ps.1 ∧ Copies q₀ bs.2 ps.2)
        (FileTable.splitLoop cellNum key row i bs) (Table.splitLoop cellNum key row.user i ps) := by
  intro i
  induction i with
  | zero => intro bs ps hcurr hnext hi; exact splitStep_alike key row hcurr hnext hi hcell
  | succ i ih =>
    intro bs ps hcurr hnext hi
    exact (splitStep_alike key row hcurr hnext hi hcell).bind fun _ _ h _ =>
      ih h.1 h.2 (Nat.le_of_succ_le hi)

/-! ## Inserting -/

namespace Sim

/-- The first half of a split. -/
theorem splitLeaf {c : Cursor} (key : UInt32) (row : Row) (hc : c.pageNum ∈ S)
    (hcell : c.cellNum ≤ LeafPage.cellsCapacity) :
    Sim (On S (Leafy [c.pageNum])) (FileTable.splitLeaf c key row) (Table.splitLeaf c key row.user)
      (fun x y ft t => (x = y ∧ y.1 ≠ 0) ∧ On (y.1 :: S) (Leafy [c.pageNum, y.1]) ft t)
      AfterError := by
  rw [FileTable.splitLeaf, Table.splitLeaf]
  refine .get_bind fun s t hst => ?_
  rw [hst.1.numPages]
  generalize hnext : t.pager.numPages = n
  have hlt : c.pageNum < n := hnext ▸ hst.1.lt_numPages hc
  have hn0 : n ≠ 0 := by omega
  have hword : n < 2 ^ 32 :=
    Nat.lt_of_le_of_lt (hnext ▸ hst.1.numPages_le) (show maxPages < 2 ^ 32 by decide)
  have hleafy : On S (Leafy [c.pageNum, n]) s t := by
    refine ⟨hst.1, hst.2.1, fun m hm => ?_⟩
    rcases List.mem_cons.mp hm with rfl | hm
    · exact hst.2.2 _ (by simp)
    · rw [List.mem_singleton.mp hm, hst.1.fresh (Nat.le_of_eq hnext)]
      decide
  refine .of_eq hleafy ?_
  refine .bind_and (getLeafPage (by simp)) fun _ _ _ => ?_
  refine Sim.pre (?_ : Sim (On (n :: S) (Leafy [c.pageNum, n])) _ _ _ _) fun ft t h =>
    h.mono (List.Subset.refl _) fun f hf => hf.1
  have hin : n ∈ n :: S ∧ c.pageNum ∈ n :: S := ⟨List.mem_cons_self, List.mem_cons_of_mem _ hc⟩
  refine .bind_and (pageLeafy hin.2 (by simp)) fun b p h₁ => ?_
  refine .bind_and (leafGetMaxKey h₁.1 h₁.2.1 h₁.2.2) fun oldMax k hk => ?_
  subst hk
  refine .bind_and (pageLeafy hin.1 (by simp)) fun b₂ p₂ h₂ => ?_
  rw [h₁.1.parent, h₁.1.link]
  refine .bind (setLeafy [c.pageNum, n] hin.1
    ((h₂.1.setParentPage h₁.1.parent_lt).setLink h₁.1.link_lt)
    ⟨h₂.2.1.isRoot, h₂.2.1.internal, h₂.2.1.cells, h₂.2.1.keys⟩ h₂.2.2 (by simp)) fun _ _ => ?_
  refine .bind (setLeafy [c.pageNum, n] hin.2 (h₁.1.setLink hword)
    ⟨h₁.2.1.isRoot, h₁.2.1.internal, h₁.2.1.cells, h₁.2.1.keys⟩ h₁.2.2 (by simp)) fun _ _ => ?_
  refine .bind_and (pageLeafy hin.2 (by simp)) fun b₃ p₃ h₃ => ?_
  refine .bind_and (pageLeafy hin.1 (by simp)) fun b₄ p₄ h₄ => ?_
  have hcurr : Copies p₃ b₃ p₃ := ⟨h₃.1, ⟨rfl, rfl, rfl, rfl, rfl⟩, h₃.2.2⟩
  have hnew : Copies p₄ b₄ p₄ := ⟨h₄.1, ⟨rfl, rfl, rfl, rfl, rfl⟩, h₄.2.2⟩
  refine .bind_and (check (splitLoop_alike key row hcell _ hcurr hnew (Nat.le_refl _)))
    fun bs ps hps => ?_
  obtain ⟨⟨hleft, hright⟩, -⟩ := hps
  refine .bind (setLeafy [c.pageNum, n] hin.2 (hleft.1.setNum (by decide))
    (h₃.2.1.refilled hleft (by decide)) hleft.2.2 (by simp)) fun _ _ => ?_
  refine .bind (setLeafy [c.pageNum, n] hin.1 (hright.1.setNum (by decide))
    (h₄.2.1.refilled hright (by decide)) hright.2.2 (by simp)) fun _ _ => ?_
  exact .pure fun _ _ h => ⟨⟨rfl, hn0⟩, h⟩

/-- `Cursor::DoInsertAndSplit`. -/
theorem doInsertAndSplit {c : Cursor} (key : UInt32) (row : Row) (hc : c.pageNum ∈ S)
    (hcell : c.cellNum ≤ LeafPage.cellsCapacity) :
    Sim (On S (Leafy [c.pageNum])) (FileTable.doInsertAndSplit c key row)
      (Table.doInsertAndSplit c key row.user) (fun _ _ => On [] fun _ => True) AfterError := by
  rw [FileTable.doInsertAndSplit, Table.doInsertAndSplit]
  refine .bind_and (splitLeaf key row hc hcell) fun x y hxy => ?_
  obtain ⟨rfl, hn0⟩ := hxy
  obtain ⟨n, oldMax⟩ := x
  refine .bind_and (pageLeafy (List.mem_cons_of_mem _ hc) (by simp)) fun b p h₁ => ?_
  rw [h₁.1.isRoot_eq, h₁.1.parent]
  refine .ite Iff.rfl (fun hroot => ?_) fun _ => ?_
  · have h0 := h₁.2.1.isRoot hroot
    rw [h0] at hc ⊢
    exact splitRoot List.mem_cons_self hn0
  · refine .bind_and (getPage p.parent) fun b₂ p₂ h₂ => ?_
    refine .bind_and (getMaxKey h₂.1 h₂.2) fun newMax k hk => ?_
    subst hk
    rw [h₂.1.hasType]
    refine .ite (by simp) (fun hkind => ?_) fun _ => .throw_bind fun _ _ h => h.afterError _
    have htype : p₂.type = .internal := by simpa using hkind
    have h0 := h₂.2.internal htype
    rw [h₂.1.internalFindCell htype]
    refine .bind_and (found _) fun i j hij => ?_
    subst hij
    have hin : Internal p₂.num b₂ p₂ := ⟨h₂.1, htype, rfl⟩
    refine .bind_and (check (hin.setKey i newMax)) fun b₃ p₃ h₃ => ?_
    rw [h0]
    refine .bind (setInternal List.mem_cons_self h₃.1 (h₂.2.keys htype)) fun _ _ => ?_
    refine (insertInternal (S := 0 :: n :: S) List.mem_cons_self
      (List.mem_cons_of_mem _ List.mem_cons_self)).pre fun ft t h => ?_
    exact h.mono (List.Subset.refl _) fun f hf => by rw [hf]; exact h₃.1.2.1

/-- `Cursor::ExecuteInsert`. -/
theorem executeInsert {c : Cursor} (key : UInt32) (row : Row)
    (hcell : c.cellNum ≤ LeafPage.cellsCapacity) :
    Sim (On S (Leafy [c.pageNum])) (FileTable.executeInsert c key row)
      (Table.executeInsert c key row.user) (fun _ _ => On [] fun _ => True) AfterError := by
  rw [FileTable.executeInsert, Table.executeInsert]
  refine .bind_and (getLeafPage (by simp)) fun b p h₁ => ?_
  refine Sim.pre (?_ : Sim (On (c.pageNum :: S) (Leafy [c.pageNum])) _ _ _ _) fun ft t h =>
    h.mono (List.Subset.refl _) fun f hf => hf.1
  obtain ⟨hb, hp, hleaf⟩ := h₁
  rw [hb.num]
  refine .ite Iff.rfl (fun _ => doInsertAndSplit key row (by simp) hcell) fun hroom => ?_
  have hnum : p.num < LeafPage.cellsCapacity := Nat.not_le.mp hroom
  have hkind : p.type ≠ .internal := by rw [hleaf]; decide
  -- Room is made if the cell is not behind all others.
  have hshift : Copies p (if c.cellNum < p.num then b.shiftLeafCells c.cellNum p.num else b)
      (if c.cellNum < p.num then p.setLeafCells (shiftUp c.cellNum p.num p.leafCells) else p) := by
    split
    · exact ⟨Block.Shows.shiftLeafCells _ _ hb hkind ((Page.leafCellOk_iff _).mpr hnum),
        ⟨rfl, rfl, rfl, rfl, rfl⟩, hkind⟩
    · exact ⟨hb, ⟨rfl, rfl, rfl, rfl, rfl⟩, hkind⟩
  generalize (if c.cellNum < p.num then b.shiftLeafCells c.cellNum p.num else b) = b₁ at hshift ⊢
  generalize (if c.cellNum < p.num then p.setLeafCells (shiftUp c.cellNum p.num p.leafCells)
    else p) = p₁ at hshift ⊢
  have hnum₁ : p₁.num + 1 ≤ LeafPage.cellsCapacity := by rw [hshift.2.1.num]; exact hnum
  have hmore : Copies { p with num := p₁.num + 1 } (b₁.setNum (b₁.num + 1))
      { p₁ with num := p₁.num + 1 } := by
    obtain ⟨hparent, htype, hroot, -, hlink⟩ := hshift.2.1
    refine ⟨?_, ⟨hparent, htype, hroot, rfl, hlink⟩, hshift.2.2⟩
    rw [hshift.1.num]
    exact hshift.1.setNum (Nat.lt_of_le_of_lt hnum₁ (by decide))
  have hok : PageOk c.pageNum { p with num := p₁.num + 1 } :=
    ⟨hp.isRoot, hp.internal, fun _ => hnum₁, fun h => absurd h hkind⟩
  refine .bind (setLeafy [c.pageNum] List.mem_cons_self hmore.1 (hok.copied hmore) hmore.2.2
    (by simp)) fun _ _ => ?_
  refine .bind_and (check (hmore.putKey c.cellNum key)) fun b₂ p₂ h₂ => ?_
  refine .bind (setLeafy [c.pageNum] List.mem_cons_self h₂.1.1 (hok.copied h₂.1) h₂.1.2.2
    (by simp)) fun _ _ => ?_
  refine .bind_and (check (h₂.1.putVal c.cellNum row)) fun b₃ p₃ h₃ => ?_
  exact (setLeafy [] List.mem_cons_self h₃.1.1 (hok.copied h₃.1) h₃.1.2.2
    (List.nil_subset _)).post fun _ _ _ _ h => h.mono (List.nil_subset _) fun _ _ => trivial

/-- `Table::Insert`. -/
theorem insert (key : UInt32) (row : Row) : Sim (On [] fun _ => True) (FileTable.insert key row)
    (Table.insert key row.user) (fun _ _ => On [] fun _ => True) AfterError := by
  rw [FileTable.insert, Table.insert]
  refine .bind_and (find key) fun o o' ho => ?_
  obtain ⟨rfl, hcell⟩ := ho
  cases o with
  | none => exact .throw fun _ _ h s _ => h.1
  | some c =>
    exact (executeInsert key row (hcell c rfl)).pre fun _ _ h =>
      (h.2 c rfl).mono (List.Subset.refl _) fun _ hf => hf.2

end Sim

end

end CxxLab.DbLab
