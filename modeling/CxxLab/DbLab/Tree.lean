import CxxLab.DbLab.Leaf
import Mathlib.Data.List.Nodup

/-!
# The table as a tree of two levels

The tables `Table::Insert` builds are either one leaf, at page 0, or an internal page there over
leaves. Both are described by the list of their leaves, left to right — `Leaves`, each with its
page number and its cells — and everything a caller can see is about that list: a lookup cuts
it (`Tree.find`), an insertion inserts into it, and a scan reads it off.

`Tree` is the invariant of the second kind of table. Its heart is `RootOver`: the separator in
front of each leaf but the last *is* the largest key of that leaf. It says nothing about the
cells behind `num_keys`, where a split writes a separator too early and corrects it later.

The invariant survives three of the four ways an insertion can go: into a leaf with room, and
into a full leaf that is the root or that hangs off `right_child`. The fourth, a full leaf in the
middle, takes its separators from the wrong page; `Ingest` shows what comes of it.
-/

set_option autoImplicit false

namespace CxxLab.DbLab

open CxxLab.Lib Exec

/-- The leaves of a table from left to right: page numbers and cells. -/
abbrev Leaves := List (Nat × List LeafCell)

/-- All the cells, in the order of a scan. -/
def Leaves.cells (lv : Leaves) : List LeafCell := lv.flatMap Prod.snd

/-- `next_leaf` of leaf `i`: the page behind it in the list, and 0 for the last one. -/
def Leaves.next (lv : Leaves) (i : Nat) : Nat := (lv[i + 1]?.map Prod.fst).getD 0

/-- A leaf under page 0, with these cells and this `next_leaf`. -/
structure ChildLeaf (leaf : Page) (L : List LeafCell) (next : Nat) : Prop where
  type : leaf.type = .leaf
  isRoot : leaf.isRoot = false
  parent : leaf.parent = 0
  link : leaf.link = next
  cells : leaf.HasCells L
  nonempty : L ≠ []
  capacity : L.length ≤ LeafPage.cellsCapacity

/-- A half of a full leaf and one cell more. -/
theorem ChildLeaf.of_half {leaf : Page} {L : List LeafCell} {next : Nat} (hlen : L.length = 7)
    (htype : leaf.type = .leaf) (hroot : leaf.isRoot = false) (hparent : leaf.parent = 0)
    (hlink : leaf.link = next) (hcells : leaf.HasCells L) : ChildLeaf leaf L next where
  type := htype
  isRoot := hroot
  parent := hparent
  link := hlink
  cells := hcells
  nonempty := List.ne_nil_of_length_pos (by omega)
  capacity := by simp [hlen]

/-- An internal page over these leaves: child `i` is leaf `i`, and key `i` the largest key of it. -/
structure RootOver (root : Page) (lv : Leaves) : Prop where
  type : root.type = .internal
  num : root.num + 1 = lv.length
  slot : ∀ i x, i < root.num → lv[i]? = some x → root.slots i = ⟨x.1, lastKey x.2⟩
  link : ∀ x, lv[root.num]? = some x → root.link = x.1

/-- A table with an internal root over leaves. -/
structure Tree (t : Table) (lv : Leaves) : Prop where
  rootPageNum : t.rootPageNum = 0
  root : RootOver (t.pager.pages 0) lv
  leaf : ∀ i x, lv[i]? = some x → ChildLeaf (t.pager.pages x.1) x.2 (lv.next i)
  nodup : (lv.map Prod.fst).Nodup
  inUse : ∀ x ∈ lv, 0 < x.1 ∧ x.1 < t.pager.numPages
  numPages : t.pager.numPages = lv.length + 1
  fresh : ∀ n, t.pager.numPages ≤ n → t.pager.pages n = Page.zero
  sorted : KeysSorted lv.cells
  two : 2 ≤ lv.length
  small : lv.length ≤ InternalPage.maxCells + 1

/-- A table whose root is still a leaf. -/
structure RootLeaf (t : Table) (L : List LeafCell) : Prop where
  rootPageNum : t.rootPageNum = 0
  type : (t.pager.pages 0).type = .leaf
  isRoot : (t.pager.pages 0).isRoot = true
  link : (t.pager.pages 0).link = 0
  cells : (t.pager.pages 0).HasCells L
  numPages : t.pager.numPages = 1
  fresh : ∀ n, t.pager.numPages ≤ n → t.pager.pages n = Page.zero
  sorted : KeysSorted L
  capacity : L.length ≤ LeafPage.cellsCapacity

/-! ## Cells in order -/

namespace Leaves

@[simp] theorem cells_append (A B : Leaves) : cells (A ++ B) = cells A ++ cells B :=
  List.flatMap_append

@[simp] theorem cells_cons (p : Nat) (L : List LeafCell) (A : Leaves) :
    cells ((p, L) :: A) = L ++ cells A := rfl

@[simp] theorem cells_nil : cells [] = [] := rfl

theorem mem_cells {lv : Leaves} {i : Nat} {x : Nat × List LeafCell} (h : lv[i]? = some x)
    {c : LeafCell} (hc : c ∈ x.2) : c ∈ lv.cells :=
  List.mem_flatMap.mpr ⟨x, List.mem_of_getElem? h, hc⟩

end Leaves

theorem lastKey_eq {L : List LeafCell} (h : L ≠ []) : lastKey L = (L.getLast h).key := by
  rw [lastKey, List.getLastD_eq_getLast?, List.getLast?_eq_some_getLast h]
  rfl

theorem exists_lastKey {L : List LeafCell} (h : L ≠ []) : ∃ c ∈ L, c.key = lastKey L :=
  ⟨L.getLast h, List.getLast_mem h, (lastKey_eq h).symm⟩

theorem key_le_lastKey {L : List LeafCell} (hs : KeysSorted L) {c : LeafCell} (hc : c ∈ L) :
    c.key ≤ lastKey L := by
  have hne : L ≠ [] := List.ne_nil_of_mem hc
  rw [lastKey_eq hne]
  rw [← List.dropLast_append_getLast hne] at hc hs
  rcases List.mem_append.mp hc with h | h
  · exact UInt32.le_of_lt ((List.pairwise_append.mp hs).2.2 c h _ (by simp))
  · rw [List.mem_singleton.mp h]
    exact UInt32.le_refl _

theorem KeysSorted.lastKey_lt {M₁ M₂ : List LeafCell} (h : KeysSorted (M₁ ++ M₂)) (h₁ : M₁ ≠ [])
    (h₂ : M₂ ≠ []) : lastKey M₁ < lastKey M₂ := by
  obtain ⟨a, ha, hak⟩ := exists_lastKey h₁
  obtain ⟨b, hb, hbk⟩ := exists_lastKey h₂
  rw [← hak, ← hbk]
  exact (List.pairwise_append.mp h).2.2 a ha b hb

/-- What goes between the parts of a cut leaves the order. -/
theorem pairwise_insert {α : Type} {R : α → α → Prop} {l₁ l₂ : List α} {a : α}
    (h : (l₁ ++ l₂).Pairwise R) (h₁ : ∀ b ∈ l₁, R b a) (h₂ : ∀ b ∈ l₂, R a b) :
    (l₁ ++ a :: l₂).Pairwise R := by
  obtain ⟨hs₁, hs₂, hcross⟩ := List.pairwise_append.mp h
  refine List.pairwise_append.mpr ⟨hs₁, List.pairwise_cons.mpr ⟨h₂, hs₂⟩, fun b hb c hc => ?_⟩
  rcases List.mem_cons.mp hc with rfl | hc
  · exact h₁ b hb
  · exact hcross b hb c hc

/-- A cut at a key whose lower part is below it and whose upper part is not stays in order with
the key put in, unless it was there. -/
theorem KeysSorted.insert (L₁ L₂ : List LeafCell) (c : LeafCell) (h : KeysSorted (L₁ ++ L₂))
    (h₁ : ∀ a ∈ L₁, a.key < c.key) (h₂ : ∀ a ∈ L₂, c.key < a.key) : KeysSorted (L₁ ++ c :: L₂) :=
  pairwise_insert h h₁ h₂

/-- In a list in order the leaves before a leaf have smaller keys. -/
theorem KeysSorted.leaf_lt {lv : Leaves} (hs : KeysSorted lv.cells) {i j : Nat} (hij : i < j)
    {x y : Nat × List LeafCell} (hx : lv[i]? = some x) (hy : lv[j]? = some y) {a b : LeafCell}
    (ha : a ∈ x.2) (hb : b ∈ y.2) : a.key < b.key := by
  have hsplit : lv.take j ++ lv.drop j = lv := List.take_append_drop j lv
  rw [← hsplit, Leaves.cells_append] at hs
  refine (List.pairwise_append.mp hs).2.2 a ?_ b ?_
  · exact Leaves.mem_cells (i := i) (by rw [List.getElem?_take_of_lt hij, hx]) ha
  · exact Leaves.mem_cells (i := 0) (by rw [List.getElem?_drop, Nat.add_zero, hy]) hb

theorem KeysSorted.leaf {lv : Leaves} (hs : KeysSorted lv.cells) {i : Nat}
    {x : Nat × List LeafCell} (hx : lv[i]? = some x) : KeysSorted x.2 :=
  (List.pairwise_flatMap.mp hs).1 x (List.mem_of_getElem? hx)

/-! ## Looking up -/

namespace Tree

variable {t : Table} {lv : Leaves}

theorem numPages_le (h : Tree t lv) : t.pager.numPages < maxPages := by
  have h₁ := h.numPages
  have h₂ := h.small
  have h₃ : maxPages = 262144 := by decide
  simp only [maxCells_eq] at h₂
  omega

/-- The separators are in order. -/
theorem slots_lt (h : Tree t lv) {i j : Nat} (hij : i < j) (hj : j < (t.pager.pages 0).num) :
    ((t.pager.pages 0).slots i).key < ((t.pager.pages 0).slots j).key := by
  have hnum := h.root.num
  obtain ⟨x, hx⟩ : ∃ x, lv[i]? = some x := ⟨_, List.getElem?_eq_getElem (by omega)⟩
  obtain ⟨y, hy⟩ : ∃ y, lv[j]? = some y := ⟨_, List.getElem?_eq_getElem (by omega)⟩
  rw [h.root.slot i x (by omega) hx, h.root.slot j y hj hy]
  obtain ⟨a, ha, hax⟩ := exists_lastKey (h.leaf i x hx).nonempty
  obtain ⟨b, hb, hby⟩ := exists_lastKey (h.leaf j y hy).nonempty
  rw [← hax, ← hby]
  exact h.sorted.leaf_lt hij hx hy ha hb

theorem exists_childLeaf (h : Tree t lv) {x : Nat × List LeafCell} (hx : x ∈ lv) :
    ∃ i, ChildLeaf (t.pager.pages x.1) x.2 (lv.next i) := by
  obtain ⟨i, hi⟩ := List.mem_iff_getElem?.mp hx
  exact ⟨i, h.leaf i x hi⟩

/-- Child `i` of the root is leaf `i`, the last one through `right_child`. -/
theorem getChildPageNum (h : Tree t lv) {i : Nat} {x : Nat × List LeafCell} (hx : lv[i]? = some x) :
    (t.pager.pages 0).getChildPageNum i = .ok x.1 := by
  have hnum := h.root.num
  have hsmall := h.small
  have hi : i < lv.length := (List.getElem?_eq_some_iff.mp hx).1
  simp only [maxCells_eq] at hsmall
  rw [Page.getChildPageNum, if_neg (by omega)]
  by_cases hin : i = (t.pager.pages 0).num
  · rw [if_pos hin, h.root.link x (by rw [← hin]; exact hx)]
  · rw [if_neg hin, if_pos ((Page.slotOk_iff i).mpr (by simp; omega)), h.root.slot i x (by omega) hx]

/-- **The root sends a key to the leaf it belongs in.** -/
theorem locate (h : Tree t lv) (key : UInt32) :
    ∃ (A : Leaves) (p : Nat) (L : List LeafCell) (B : Leaves), lv = A ++ (p, L) :: B ∧
      (t.pager.pages 0).internalFindCell key = some A.length ∧
      (t.pager.pages 0).getChildPageNum A.length = .ok p ∧
      (∀ c ∈ A.cells, c.key < key) ∧ (∀ c ∈ B.cells, key < c.key) ∧
      (B ≠ [] → key ≤ lastKey L) := by
  have hnum := h.root.num
  have hsmall := h.small
  simp only [maxCells_eq] at hsmall
  obtain ⟨i, hi, hle, hbelow, habove⟩ :=
    Page.internalFindCell_spec (p := t.pager.pages 0) key (by simp; omega)
      (fun i j hij hj => by
        rcases Nat.eq_or_lt_of_le hij with rfl | hlt
        · exact UInt32.le_refl _
        · exact UInt32.le_of_lt (h.slots_lt hlt hj))
  have hilt : i < lv.length := by omega
  have hx : lv[i]? = some lv[i] := List.getElem?_eq_getElem hilt
  have hlen : (lv.take i).length = i := by rw [List.length_take]; omega
  refine ⟨lv.take i, lv[i].1, lv[i].2, lv.drop (i + 1), ?_, ?_, ?_, ?_, ?_, ?_⟩
  · show lv = lv.take i ++ lv[i] :: lv.drop (i + 1)
    rw [List.getElem_cons_drop, List.take_append_drop]
  · rw [hlen, hi]
  · rw [hlen]
    exact h.getChildPageNum hx
  · intro c hc
    obtain ⟨x, hxm, hcx⟩ := List.mem_flatMap.mp hc
    obtain ⟨j, hj, rfl⟩ := List.mem_iff_getElem.mp hxm
    rw [hlen] at hj
    rw [List.getElem_take] at hcx
    have hj' : lv[j]? = some lv[j] := List.getElem?_eq_getElem (by omega)
    have := hbelow j hj
    rw [h.root.slot j _ (by omega) hj'] at this
    have := key_le_lastKey (h.sorted.leaf hj') hcx
    grind
  · intro c hc
    obtain ⟨x, hxm, hcx⟩ := List.mem_flatMap.mp hc
    obtain ⟨j, hj, rfl⟩ := List.mem_iff_getElem.mp hxm
    rw [List.length_drop] at hj
    rw [List.getElem_drop] at hcx
    -- A leaf behind this one means that this one has a separator, and the key is not above it.
    have hsep := habove i (Nat.le_refl i) (by omega)
    rw [h.root.slot i _ (by omega) hx] at hsep
    obtain ⟨a, ha, hax⟩ := exists_lastKey (h.leaf i _ hx).nonempty
    have := h.sorted.leaf_lt (show i < i + 1 + j by omega) hx
      (List.getElem?_eq_getElem (by omega)) ha hcx
    grind
  · intro hne
    have hlt : i < (t.pager.pages 0).num := by
      have := List.length_pos_iff.mpr hne
      rw [List.length_drop] at this
      omega
    have := habove i (Nat.le_refl i) hlt
    rwa [h.root.slot i _ hlt hx] at this

/-- `InternalPageFind` from a root whose child is a leaf. -/
theorem exec_find (h : Tree t lv) {A B : Leaves} {p : Nat} {L : List LeafCell} {i : Nat}
    {key : UInt32} (hlv : lv = A ++ (p, L) :: B)
    (hcell : (t.pager.pages 0).internalFindCell key = some A.length)
    (hchild : (t.pager.pages 0).getChildPageNum A.length = .ok p)
    (hleaf : (t.pager.pages p).leafFindCell key = some i) :
    exec (Table.find key) t = (.ok (some ⟨p, i, false⟩), t) := by
  have hmem : (p, L) ∈ lv := by rw [hlv]; simp
  have hmax := Nat.le_of_lt h.numPages_le
  have hp : lv[A.length]? = some (p, L) := by rw [hlv]; simp
  have hroot : exec (Table.getPage t.rootPageNum) t = (.ok (t.pager.pages 0), t) := by
    rw [h.rootPageNum]
    exact Table.exec_getPage (by rw [h.numPages]; omega) (by decide)
  have hsub := Table.exec_getPage (h.inUse _ hmem).2 (Nat.lt_of_lt_of_le (h.inUse _ hmem).2 hmax)
  rw [Table.find, exec_bind_ok (exec_get t), exec_bind_ok hroot]
  have hwalk : exec (Table.internalPageFind key (t.pager.numPages + 1) (t.pager.pages 0)) t =
      (.ok ⟨p, i, false⟩, t) := by
    simp only [Table.internalPageFind, exec_bind, hcell, Table.exec_found_some, hchild,
      Table.exec_check_ok, hsub, (h.leaf _ _ hp).type, Table.leafPageFind, hleaf, exec_pure]
  simp only [h.root.type]
  exact exec_tryCatch_ok (by rw [exec_map, hwalk])

/-- **`Find` cuts the cells of the table at the key**, and changes nothing. -/
theorem find (h : Tree t lv) (key : UInt32) :
    ∃ (A : Leaves) (p : Nat) (L₁ L₂ : List LeafCell) (B : Leaves), lv = A ++ (p, L₁ ++ L₂) :: B ∧
      exec (Table.find key) t = (.ok (some ⟨p, L₁.length, false⟩), t) ∧
      (t.pager.pages 0).internalFindCell key = some A.length ∧
      (∀ c ∈ A.cells ++ L₁, c.key < key) ∧ (∀ c ∈ L₂, key ≤ c.key) ∧ (∀ c ∈ B.cells, key < c.key) ∧
      (B ≠ [] → key ≤ lastKey (L₁ ++ L₂)) := by
  obtain ⟨A, p, L, B, hlv, hcell, hchild, hA, hB, hsep⟩ := h.locate key
  have hp : lv[A.length]? = some (p, L) := by rw [hlv]; simp
  have hat := h.leaf _ _ hp
  obtain ⟨L₁, L₂, hL, hfind, h₁, h₂⟩ := hat.cells.findCell (h.sorted.leaf hp) hat.capacity key
  refine ⟨A, p, L₁, L₂, B, hL ▸ hlv, h.exec_find hlv hcell hchild hfind, hcell, ?_, h₂, hB,
    hL ▸ hsep⟩
  intro c hc
  rcases List.mem_append.mp hc with hc | hc
  · exact hA c hc
  · exact h₁ c hc

end Tree

/-! ## Inserting where there is room -/

namespace Leaves

variable {A B : Leaves} {p : Nat} {L L' : List LeafCell}

theorem getElem?_replace (i : Nat) : (A ++ (p, L') :: B)[i]? =
    if i = A.length then some (p, L') else (A ++ (p, L) :: B)[i]? := by
  by_cases h₁ : i < A.length
  · rw [if_neg (by omega), List.getElem?_append_left h₁, List.getElem?_append_left h₁]
  · rw [List.getElem?_append_right (by omega), List.getElem?_append_right (by omega)]
    by_cases h₂ : i = A.length
    · simp [h₂]
    · rw [if_neg h₂, List.getElem?_cons, List.getElem?_cons, if_neg (by omega), if_neg (by omega)]

theorem next_replace (i : Nat) : next (A ++ (p, L') :: B) i = next (A ++ (p, L) :: B) i := by
  unfold next
  rw [getElem?_replace (L := L)]
  split
  · rename_i h; rw [h]; simp
  · rfl

/-- The pages of a list without repetitions are at one place each. -/
theorem fst_ne {lv : Leaves} (h : (lv.map Prod.fst).Nodup) {i j : Nat}
    {x y : Nat × List LeafCell} (hx : lv[i]? = some x) (hy : lv[j]? = some y) (hij : i ≠ j) :
    x.1 ≠ y.1 := by
  intro heq
  have hi : i < lv.length := (List.getElem?_eq_some_iff.mp hx).1
  apply hij
  apply (List.getElem?_inj (l := lv.map Prod.fst) (by simpa using hi) h).mp
  rw [List.getElem?_map, List.getElem?_map, hx, hy]
  simp [heq]

end Leaves

theorem lastKey_append {L₁ L₂ : List LeafCell} (h : L₂ ≠ []) : lastKey (L₁ ++ L₂) = lastKey L₂ := by
  rw [lastKey_eq h, lastKey_eq (by simp [h]), List.getLast_append_of_ne_nil _ h]

/-- A cell with a key below the largest one leaves the largest one. -/
theorem lastKey_insert {L₁ L₂ : List LeafCell} {key : UInt32} (row : UserSchema)
    (hne : L₁ ++ L₂ ≠ []) (h₁ : ∀ c ∈ L₁, c.key < key) (hkey : key < lastKey (L₁ ++ L₂)) :
    lastKey (L₁ ++ ⟨key, row⟩ :: L₂) = lastKey (L₁ ++ L₂) := by
  have hne₂ : L₂ ≠ [] := by
    rintro rfl
    rw [List.append_nil] at hne hkey
    obtain ⟨c, hc, heq⟩ := exists_lastKey hne
    exact UInt32.lt_irrefl _ (UInt32.lt_trans hkey (heq ▸ h₁ c hc))
  rw [lastKey_append hne₂, lastKey_append (by simp), ← List.singleton_append, lastKey_append hne₂]

/-- A root does not care about the cells of a leaf, but for the largest key of one with leaves
behind it. -/
theorem RootOver.replace {root : Page} {A B : Leaves} {p : Nat} {L L' : List LeafCell}
    (h : RootOver root (A ++ (p, L) :: B)) (hlast : B ≠ [] → lastKey L' = lastKey L) :
    RootOver root (A ++ (p, L') :: B) := by
  have hp : (A ++ (p, L) :: B)[A.length]? = some (p, L) := by simp
  refine ⟨h.type, by simpa using h.num, fun i x hi hx => ?_, fun x hx => ?_⟩
  · rw [Leaves.getElem?_replace (L := L)] at hx
    split at hx
    · rename_i hiA
      subst hiA
      cases hx
      have hnum := h.num
      have hB : B ≠ [] := by rintro rfl; simp at hnum; omega
      rw [h.slot _ _ hi hp, hlast hB]
    · exact h.slot i x hi hx
  · rw [Leaves.getElem?_replace (L := L)] at hx
    split at hx
    · rename_i hiA
      cases hx
      exact h.link (p, L) (hiA ▸ hp)
    · exact h.link x hx

namespace Tree

variable {t : Table} {A B : Leaves} {p : Nat} {L₁ L₂ : List LeafCell}

/-- **Another leaf in the place of one.** One with leaves behind it keeps its largest key, so the
separators stay right. -/
theorem store_leaf {L M : List LeafCell} (h : Tree t (A ++ (p, L) :: B)) {q : Page}
    (hq : ChildLeaf q M (Leaves.next (A ++ (p, L) :: B) A.length))
    (hlast : B ≠ [] → lastKey M = lastKey L)
    (hsorted : KeysSorted (Leaves.cells (A ++ (p, M) :: B))) :
    Tree (t.store p q) (A ++ (p, M) :: B) := by
  have hp : (A ++ (p, L) :: B)[A.length]? = some (p, L) := by simp
  obtain ⟨hpos, huse⟩ := h.inUse (p, L) (by simp)
  refine {
    rootPageNum := h.rootPageNum
    root := ?_
    leaf := ?_
    nodup := by simpa using h.nodup
    inUse := ?_
    numPages := by simpa using h.numPages
    fresh := ?_
    sorted := hsorted
    two := by simpa using h.two
    small := by simpa using h.small }
  · rw [Table.pages_store, setAt_of_ne (by omega)]
    exact h.root.replace hlast
  · intro i x hx
    rw [Leaves.getElem?_replace (L := L)] at hx
    rw [Leaves.next_replace (L := L), Table.pages_store]
    split at hx
    · rename_i hiA
      subst hiA
      cases hx
      rw [setAt_self]
      exact hq
    · rename_i hiA
      rw [setAt_of_ne (Leaves.fst_ne h.nodup hx hp hiA)]
      exact h.leaf i x hx
  · intro x hx
    rcases List.mem_append.mp hx with hx | hx
    · exact h.inUse x (by simp [hx])
    · rcases List.mem_cons.mp hx with rfl | hx
      · exact ⟨hpos, huse⟩
      · exact h.inUse x (by simp [hx])
  · intro n hn
    rw [Table.numPages_store] at hn
    rw [Table.pages_store, setAt_of_ne (by have : p < t.pager.numPages := huse; omega)]
    exact h.fresh n hn

/-- **Insertion into a leaf with room.** -/
theorem insert_room (h : Tree t (A ++ (p, L₁ ++ L₂) :: B)) {key : UInt32} (row : UserSchema)
    (hfind : exec (Table.find key) t = (.ok (some ⟨p, L₁.length, false⟩), t))
    (h₁ : ∀ c ∈ A.cells ++ L₁, c.key < key) (h₂ : ∀ c ∈ L₂ ++ B.cells, key < c.key)
    (hsep : B ≠ [] → key < lastKey (L₁ ++ L₂))
    (hroom : (L₁ ++ L₂).length < LeafPage.cellsCapacity) :
    ∃ t', exec (Table.insert key row) t = (.ok (), t') ∧
      Tree t' (A ++ (p, L₁ ++ ⟨key, row⟩ :: L₂) :: B) := by
  have hat := h.leaf A.length (p, L₁ ++ L₂) (by simp)
  obtain ⟨-, huse⟩ := h.inUse (p, L₁ ++ L₂) (by simp)
  obtain ⟨q, hrun, hq, hcells⟩ := Table.exec_executeInsert_room (c := ⟨p, L₁.length, false⟩) key row
    huse (Nat.lt_trans huse h.numPages_le) hat.type hat.cells rfl hroom
  have hlast : B ≠ [] → lastKey (L₁ ++ ⟨key, row⟩ :: L₂) = lastKey (L₁ ++ L₂) := fun hB =>
    lastKey_insert row hat.nonempty (fun c hc => h₁ c (List.mem_append_right _ hc)) (hsep hB)
  refine ⟨t.store p q, ?_, h.store_leaf ?_ hlast ?_⟩
  · rw [Table.insert, exec_bind_ok hfind]
    exact hrun
  · refine ⟨hq.type.trans hat.type, hq.isRoot.trans hat.isRoot, hq.parent.trans hat.parent,
      hq.link.trans hat.link, hcells, by simp, ?_⟩
    simp only [List.length_append, List.length_cons] at hroom ⊢
    omega
  · have hs := h.sorted
    simp only [Leaves.cells_append, Leaves.cells_cons] at hs ⊢
    have := KeysSorted.insert (A.cells ++ L₁) (L₂ ++ B.cells) ⟨key, row⟩
      (by simpa using hs) h₁ h₂
    simpa using this

end Tree

/-! ## Splitting the last leaf -/

/-- An internal page with its right child pushed into a cell and a new right child. -/
def Page.pushRight (root : Page) (rightMax : UInt32) (child : Nat) : Page :=
  { root with
    num := root.num + 1
    link := child
    body := .internal (DbLab.setAt root.slots root.num ⟨root.link, rightMax⟩) }

/-- **`InsertInternal` of a child behind the right child.** Whatever stood in cell `num_keys` is
overwritten, and the index looked up is not used. -/
theorem Table.exec_insertInternal_last {t : Table} {child : Nat} {Q R : List LeafCell}
    (hmax : t.pager.numPages ≤ maxPages) (hnum : (t.pager.pages 0).num < InternalPage.maxCells)
    (hlink : (t.pager.pages 0).link ≠ 0 ∧ (t.pager.pages 0).link < t.pager.numPages)
    (hright : ChildLeaf (t.pager.pages (t.pager.pages 0).link) Q child)
    (hchild : (t.pager.pages child).type = .leaf) (hcells : (t.pager.pages child).HasCells R)
    (hne : R ≠ []) (hlt : lastKey Q < lastKey R) :
    exec (insertInternal 0 child) t =
      (.ok (), t.store 0 ((t.pager.pages 0).pushRight (lastKey Q) child)) := by
  generalize hroot : t.pager.pages 0 = root at *
  have hmaxKey : (t.pager.pages child).getMaxKey = .ok (lastKey R) := by
    rw [Page.getMaxKey, hchild]
    exact hcells.leafGetMaxKey hne
  have hrightMax : (t.pager.pages root.link).getMaxKey = .ok (lastKey Q) := by
    rw [Page.getMaxKey, hright.type]
    exact hright.cells.leafGetMaxKey hright.nonempty
  -- The search over one cell too many ends somewhere.
  obtain ⟨index, hindex, -⟩ := Page.internalFindCell_isSome (p := { root with num := root.num + 1 })
    (UInt32.ofNat root.num) (by show root.num + 1 ≤ _; omega)
  have hget : exec (getPage root.link) (t.store 0 { root with num := root.num + 1 }) =
      (.ok (t.pager.pages root.link), t.store 0 { root with num := root.num + 1 }) := by
    rw [exec_getPage (by simpa using hlink.2) (Nat.lt_of_lt_of_le hlink.2 hmax), pages_store,
      setAt_of_ne hlink.1]
  have hslot : Page.slotOk root.num = true := (Page.slotOk_iff _).mpr (Nat.le_of_lt hnum)
  have hnlt : ¬ InternalPage.maxCells ≤ root.num := by omega
  have hgt : lastKey R > lastKey Q := hlt
  simp only [insertInternal, exec_bind, exec_page, hroot, hmaxKey, exec_check_ok, exec_setPage,
    pages_store, setAt_self, hindex, exec_found_some, hnlt, ge_iff_le, if_false, hget, hrightMax,
    if_pos hgt]
  have hle : ¬ root.num + 1 < root.num := by omega
  simp [Page.setKey, Page.setChild, hslot, hle, Page.pushRight, Page.putSlot, Page.setSlots,
    Page.slots, Except.toOption]

theorem Leaves.getElem?_two {A : Leaves} {x y : Nat × List LeafCell} (i : Nat) :
    (A ++ [x, y])[i]? = if i < A.length then A[i]? else if i = A.length then some x
      else if i = A.length + 1 then some y else none := by
  rw [List.getElem?_append]
  split
  · rfl
  · rename_i hi
    obtain ⟨k, rfl⟩ : ∃ k, i = A.length + k := ⟨i - A.length, by omega⟩
    rcases k with _ | _ | k
    · simp
    · simp
    · rw [if_neg (by omega), if_neg (by omega)]
      simp

/-- The root that is told of a leaf behind its last one. -/
theorem RootOver.pushRight {root : Page} {A : Leaves} {p n : Nat} {L M₁ M₂ : List LeafCell}
    (h : RootOver root (A ++ [(p, L)])) :
    RootOver (root.pushRight (lastKey M₁) n) (A ++ [(p, M₁), (n, M₂)]) := by
  have hp : (A ++ [(p, L)])[A.length]? = some (p, L) := by simp
  have hnum : root.num = A.length := by have := h.num; simp at this; exact this
  refine ⟨h.type, by simp [Page.pushRight, hnum], fun i x hi hx => ?_, fun x hx => ?_⟩
  · rw [Leaves.getElem?_two] at hx
    show setAt root.slots root.num ⟨root.link, lastKey M₁⟩ i = _
    by_cases hiA : i < A.length
    · rw [if_pos hiA] at hx
      rw [setAt_of_ne (by omega), h.slot i x (by omega) (by rw [List.getElem?_append_left hiA, hx])]
    · have hiA' : i = A.length := by simp [Page.pushRight] at hi; omega
      rw [if_neg hiA, if_pos hiA'] at hx
      cases hx
      rw [hiA', ← hnum, setAt_self, h.link (p, L) (hnum ▸ hp)]
  · simp only [Page.pushRight, hnum] at hx ⊢
    simp only [Leaves.getElem?_two, Nat.not_lt.mpr (Nat.le_succ _), if_false,
      Nat.succ_ne_self, if_true] at hx
    cases hx
    rfl

/-- The leaf behind an older one is as before when the last leaf is dealt out over two. -/
theorem Leaves.next_two {A : Leaves} {p n : Nat} {L M₁ M₂ : List LeafCell} {i : Nat}
    (hi : i < A.length) :
    next (A ++ [(p, M₁), (n, M₂)]) i = next (A ++ [(p, L)]) i := by
  unfold next
  rw [getElem?_two]
  by_cases hi' : i + 1 < A.length
  · rw [if_pos hi', List.getElem?_append_left hi']
  · rw [if_neg hi', if_pos (by omega), show i + 1 = A.length by omega,
      List.getElem?_append_right (Nat.le_refl _), Nat.sub_self]
    rfl

namespace Tree

variable {t : Table} {A : Leaves} {p : Nat} {L₁ L₂ : List LeafCell}

/-- The largest key of the last leaf is behind every separator. -/
theorem findCell_lastKey {L : List LeafCell} (h : Tree t (A ++ [(p, L)])) :
    (t.pager.pages 0).internalFindCell (lastKey L) = some (t.pager.pages 0).num := by
  have hnum : (t.pager.pages 0).num = A.length := by have := h.root.num; simp at this; exact this
  have hp : (A ++ [(p, L)])[A.length]? = some (p, L) := by simp
  obtain ⟨A', q, Q, B, hlv, hcell, -, hA, hB, hsep⟩ := h.locate (lastKey L)
  have hBnil : B = [] := by
    by_contra hne
    -- The last leaf would be behind its own largest key.
    obtain ⟨B', b, rfl⟩ := List.eq_nil_or_concat B |>.resolve_left hne
    rw [List.concat_eq_append] at *
    rw [← List.cons_append, ← List.append_assoc] at hlv
    obtain ⟨-, hlast⟩ := List.append_inj' hlv rfl
    cases List.singleton_inj.mp hlast
    obtain ⟨c, hc, hck⟩ := exists_lastKey (h.leaf _ _ hp).nonempty
    have := hB c (by simp [hc])
    grind
  subst hBnil
  have hlen := congrArg List.length hlv
  simp only [List.length_append, List.length_cons, List.length_nil] at hlen
  rw [hcell, hnum]
  congr 1
  omega

/-- The state a split of the last leaf ends in. -/
def afterSplit (t : Table) (p : Nat) (q r : Page) (leftMax : UInt32) : Table :=
  ((t.grow.store p q).store t.pager.numPages r).store 0
    ((t.pager.pages 0).pushRight leftMax t.pager.numPages)

theorem pages_afterSplit {q r : Page} {k : UInt32} (hp : 0 < p ∧ p < t.pager.numPages) (n : Nat) :
    (afterSplit t p q r k).pager.pages n =
      if n = 0 then (t.pager.pages 0).pushRight k t.pager.numPages
      else if n = p then q else if n = t.pager.numPages then r else t.pager.pages n := by
  simp only [afterSplit, Table.pages_store, Table.pages_grow, setAt]
  grind

/-- The leaves after a split of the last one. -/
theorem leaf_afterSplit {L M₁ M₂ : List LeafCell} {q r : Page} (h : Tree t (A ++ [(p, L)]))
    (hq : ChildLeaf q M₁ t.pager.numPages) (hr : ChildLeaf r M₂ 0) {i : Nat}
    {x : Nat × List LeafCell} (hx : (A ++ [(p, M₁), (t.pager.numPages, M₂)])[i]? = some x) :
    ChildLeaf ((afterSplit t p q r (lastKey M₁)).pager.pages x.1) x.2
      (Leaves.next (A ++ [(p, M₁), (t.pager.numPages, M₂)]) i) := by
  have huse : 0 < p ∧ p < t.pager.numPages := h.inUse (p, L) (by simp)
  by_cases hi : i < A.length
  · -- An older leaf; its next leaf is as before.
    have hp : (A ++ [(p, L)])[A.length]? = some (p, L) := by simp
    rw [List.getElem?_append_left hi] at hx
    have hold : (A ++ [(p, L)])[i]? = some x := by rw [List.getElem?_append_left hi, hx]
    have hxp := Leaves.fst_ne h.nodup hold hp (by omega)
    have hxuse := h.inUse x (List.mem_of_getElem? hold)
    rw [Leaves.next_two hi, pages_afterSplit huse, if_neg (by omega), if_neg hxp,
      if_neg (by omega)]
    exact h.leaf i x hold
  · rw [Leaves.getElem?_two, if_neg hi] at hx
    unfold Leaves.next
    rw [Leaves.getElem?_two]
    by_cases hi' : i = A.length
    · rw [if_pos hi'] at hx
      cases hx
      rw [if_neg (by omega), if_neg (by omega), if_pos (by omega), pages_afterSplit huse,
        if_neg (by dsimp only; omega), if_pos rfl]
      exact hq
    · rw [if_neg hi'] at hx
      split at hx
      · cases hx
        rw [if_neg (by omega), if_neg (by omega), if_neg (by omega), pages_afterSplit huse,
          if_neg (by dsimp only; omega), if_neg (by dsimp only; omega), if_pos rfl]
        exact hr
      · cases hx

/-- The last leaf dealt out over two, with the root told of it, is a tree again. -/
theorem tree_afterSplit {L M₁ M₂ : List LeafCell} {q r : Page} (h : Tree t (A ++ [(p, L)]))
    (hkeys : (t.pager.pages 0).num < InternalPage.maxCells)
    (hq : ChildLeaf q M₁ t.pager.numPages) (hr : ChildLeaf r M₂ 0)
    (hsorted : KeysSorted (A.cells ++ M₁ ++ M₂)) :
    Tree (afterSplit t p q r (lastKey M₁)) (A ++ [(p, M₁), (t.pager.numPages, M₂)]) := by
  have hnum : (t.pager.pages 0).num = A.length := by have := h.root.num; simp at this; exact this
  have huse : 0 < p ∧ p < t.pager.numPages := h.inUse (p, L) (by simp)
  refine {
    rootPageNum := h.rootPageNum
    root := ?_
    leaf := fun i x hx => h.leaf_afterSplit hq hr hx
    nodup := ?_
    inUse := ?_
    numPages := ?_
    fresh := ?_
    sorted := by simpa using hsorted
    two := by simp
    small := by simp only [List.length_append, List.length_cons, List.length_nil]; omega }
  · rw [pages_afterSplit huse, if_pos rfl]
    exact h.root.pushRight
  · have hfresh : t.pager.numPages ∉ (A ++ [(p, L)]).map Prod.fst := by
      intro hmem
      obtain ⟨x, hx, heq⟩ := List.mem_map.mp hmem
      have := h.inUse x hx
      omega
    have := List.Nodup.concat hfresh h.nodup
    simpa using this
  · intro x hx
    show 0 < x.1 ∧ x.1 < t.grow.pager.numPages
    rw [Table.numPages_grow]
    simp only [List.mem_append, List.mem_cons, List.not_mem_nil, or_false] at hx
    rcases hx with hx | rfl | rfl
    · have := h.inUse x (by simp [hx]); omega
    · dsimp only; omega
    · dsimp only; omega
  · show t.grow.pager.numPages = _
    rw [Table.numPages_grow, h.numPages]
    simp
  · intro n hn
    have hn : t.grow.pager.numPages ≤ n := hn
    rw [Table.numPages_grow] at hn
    rw [pages_afterSplit huse, if_neg (by omega), if_neg (by omega), if_neg (by omega)]
    exact h.fresh n (by omega)

/-- Stage 3 of `DoInsertAndSplit` for the last leaf. The separator it sets first goes to cell
`num_keys`, which is not in use yet. -/
theorem exec_split (h : Tree t (A ++ [(p, L₁ ++ L₂)])) {key : UInt32} {row : UserSchema}
    {M₁ M₂ : List LeafCell} {q r : Page} {i : Nat}
    (hkeys : (t.pager.pages 0).num < InternalPage.maxCells)
    (hsplit : exec (Table.splitLeaf ⟨p, i, false⟩ key row) t =
      (.ok (t.pager.numPages, lastKey (L₁ ++ L₂)), (t.grow.store p q).store t.pager.numPages r))
    (hq : ChildLeaf q M₁ t.pager.numPages) (hr : ChildLeaf r M₂ 0) (hlt : lastKey M₁ < lastKey M₂) :
    exec (Table.doInsertAndSplit ⟨p, i, false⟩ key row) t =
      (.ok (), afterSplit t p q r (lastKey M₁)) := by
  have hp : (A ++ [(p, L₁ ++ L₂)])[A.length]? = some (p, L₁ ++ L₂) := by simp
  have hnum : (t.pager.pages 0).num = A.length := by have := h.root.num; simp at this; exact this
  have hpos : 0 < A.length := by have := h.two; simp at this; omega
  obtain ⟨hp0, huse⟩ : 0 < p ∧ p < t.pager.numPages := h.inUse (p, L₁ ++ L₂) (by simp)
  have hlink : (t.pager.pages 0).link = p := h.root.link (p, L₁ ++ L₂) (hnum ▸ hp)
  have hmax : (t.pager.pages 0).getMaxKey =
      .ok ((t.pager.pages 0).slots ((t.pager.pages 0).num - 1)).key := by
    rw [Page.getMaxKey, h.root.type]
    exact if_neg (by omega)
  have hslot : Page.slotOk (t.pager.pages 0).num = true :=
    (Page.slotOk_iff _).mpr (Nat.le_of_lt hkeys)
  rw [Table.doInsertAndSplit, exec_bind_ok hsplit]
  generalize ht₁ : (t.grow.store p q).store t.pager.numPages r = t₁
  have hpages : ∀ n, t₁.pager.pages n =
      if n = t.pager.numPages then r else if n = p then q else t.pager.pages n := by
    intro n
    rw [← ht₁]
    rfl
  have hnumPages : t₁.pager.numPages = t.pager.numPages + 1 := by rw [← ht₁]; simp
  have hmaxPages : t₁.pager.numPages ≤ maxPages := by have := h.numPages_le; omega
  have hcurr : t₁.pager.pages p = q := by rw [hpages, if_neg (by omega), if_pos rfl]
  have hroot : t₁.pager.pages 0 = t.pager.pages 0 := by
    rw [hpages, if_neg (by omega), if_neg (by omega)]
  have hget : exec (Table.getPage 0) t₁ = (.ok (t.pager.pages 0), t₁) := by
    rw [Table.exec_getPage (by omega) (by decide), hroot]
  simp only [exec_bind, Table.exec_page, hcurr, hq.isRoot, hq.parent, hget, hmax,
    Table.exec_check_ok, h.root.type, h.findCell_lastKey, Table.exec_found_some, Page.setKey, hslot,
    if_true, Table.exec_setPage, Bool.false_eq_true, if_false]
  -- The root with the early separator in it; `InsertInternal` overwrites that cell.
  generalize hroot' : (t.pager.pages 0).putSlot (t.pager.pages 0).num _ = root'
  have hpush : root'.pushRight (lastKey M₁) t.pager.numPages =
      (t.pager.pages 0).pushRight (lastKey M₁) t.pager.numPages := by
    rw [← hroot']
    simp [Page.pushRight, Page.putSlot, Page.setSlots, Page.slots]
  have hroot'num : root'.num = (t.pager.pages 0).num := by rw [← hroot']; rfl
  have hroot'link : root'.link = p := by rw [← hroot']; exact hlink
  rw [Table.exec_insertInternal_last (Q := M₁) (R := M₂)]
  · simp only [Table.pages_store, setAt_self, Table.store_store, hpush, ← ht₁]
    rfl
  · simpa using hmaxPages
  · simpa [hroot'num] using hkeys
  · simp only [Table.pages_store, setAt_self, hroot'link, Table.numPages_store]
    omega
  · simp only [Table.pages_store, setAt_self, hroot'link]
    rw [setAt_of_ne (by omega), hcurr]
    exact hq
  · rw [Table.pages_store, setAt_of_ne (by omega), hpages, if_pos rfl]
    exact hr.type
  · rw [Table.pages_store, setAt_of_ne (by omega), hpages, if_pos rfl]
    exact hr.cells
  · exact hr.nonempty
  · exact hlt

/-- **Insertion into the last leaf when it is full.** -/
theorem insert_split (h : Tree t (A ++ [(p, L₁ ++ L₂)])) {key : UInt32} (row : UserSchema)
    (hfind : exec (Table.find key) t = (.ok (some ⟨p, L₁.length, false⟩), t))
    (h₁ : ∀ c ∈ A.cells ++ L₁, c.key < key) (h₂ : ∀ c ∈ L₂, key < c.key)
    (hfull : (L₁ ++ L₂).length = LeafPage.cellsCapacity)
    (hkeys : (t.pager.pages 0).num < InternalPage.maxCells) :
    ∃ t', exec (Table.insert key row) t = (.ok (), t') ∧
      Tree t' (A ++ [(p, (L₁ ++ ⟨key, row⟩ :: L₂).take LeafPage.leftSplitCount),
        (t.pager.numPages, (L₁ ++ ⟨key, row⟩ :: L₂).drop LeafPage.leftSplitCount)]) := by
  have hat := h.leaf A.length (p, L₁ ++ L₂) (by simp)
  have hend : (A ++ [(p, L₁ ++ L₂)]).next A.length = 0 := by simp [Leaves.next]
  obtain ⟨hp0, huse⟩ : 0 < p ∧ p < t.pager.numPages := h.inUse (p, L₁ ++ L₂) (by simp)
  obtain ⟨q, r, hsplit, hq, hr, hqparent, hqtype, hqroot, hqlink, hrparent, hrtype, hrroot, hrlink⟩ :=
    Table.exec_splitLeaf (c := ⟨p, L₁.length, false⟩) key row huse h.numPages_le
      (h.fresh _ (Nat.le_refl _)) hat.cells rfl hfull
  have hsorted : KeysSorted (A.cells ++ (L₁ ++ ⟨key, row⟩ :: L₂)) := by
    have := KeysSorted.insert (A.cells ++ L₁) L₂ ⟨key, row⟩
      (by simpa using h.sorted) h₁ h₂
    simpa using this
  have hlen : (L₁ ++ ⟨key, row⟩ :: L₂).length = 14 := length_of_full _ hfull
  generalize L₁ ++ (⟨key, row⟩ : LeafCell) :: L₂ = M at *
  rw [← List.take_append_drop LeafPage.leftSplitCount M, ← List.append_assoc] at hsorted
  have hq' : ChildLeaf q (M.take LeafPage.leftSplitCount) t.pager.numPages :=
    .of_half (by simp [hlen]) (hqtype.trans hat.type) (hqroot.trans hat.isRoot)
      (hqparent.trans hat.parent) hqlink hq
  have hr' : ChildLeaf r (M.drop LeafPage.leftSplitCount) 0 :=
    .of_half (by simp [hlen]) hrtype hrroot (hrparent.trans hat.parent)
      (hrlink.trans (hat.link.trans hend)) hr
  refine ⟨_, ?_, h.tree_afterSplit hkeys hq' hr' hsorted⟩
  have hget := Table.exec_getLeafPage huse (Nat.lt_trans huse h.numPages_le) hat.type
  rw [Table.insert, exec_bind_ok hfind]
  dsimp only
  rw [Table.executeInsert, exec_bind_ok hget,
    if_pos (Nat.le_of_eq (by rw [hat.cells.num, hfull]))]
  rw [List.append_assoc] at hsorted
  exact h.exec_split hkeys hsplit hq' hr'
    (KeysSorted.lastKey_lt (List.pairwise_append.mp hsorted).2.1 hq'.nonempty hr'.nonempty)

end Tree

/-! ## The root while it is a leaf -/

/-- `Find` in a table whose root is a leaf. -/
theorem Table.exec_find_leaf {t : Table} {key : UInt32} {i : Nat} (hroot : t.rootPageNum = 0)
    (huse : 0 < t.pager.numPages) (htype : (t.pager.pages 0).type = .leaf)
    (hcell : (t.pager.pages 0).leafFindCell key = some i) :
    exec (Table.find key) t = (.ok (some ⟨0, i, false⟩), t) := by
  have hget := Table.exec_getPage huse (by decide)
  rw [Table.find, exec_bind_ok (exec_get t), hroot, exec_bind_ok hget]
  simp only [htype, Table.leafPageFind, hcell, exec_map, exec_bind, Table.exec_found_some, exec_pure]

namespace RootLeaf

variable {t : Table} {L L₁ L₂ : List LeafCell}

theorem openEmpty : RootLeaf Table.openEmpty [] where
  rootPageNum := rfl
  type := rfl
  isRoot := rfl
  link := rfl
  cells := ⟨rfl, fun i hi => absurd hi (Nat.not_lt_zero i)⟩
  numPages := rfl
  fresh := by
    intro n hn
    have hn : 1 ≤ n := hn
    exact setAt_of_ne (by omega)
  sorted := List.Pairwise.nil
  capacity := Nat.zero_le _

theorem numPages_le (h : RootLeaf t L) : t.pager.numPages < maxPages := by
  rw [h.numPages]
  decide

theorem find (h : RootLeaf t L) (key : UInt32) :
    ∃ L₁ L₂, L = L₁ ++ L₂ ∧ exec (Table.find key) t = (.ok (some ⟨0, L₁.length, false⟩), t) ∧
      (∀ c ∈ L₁, c.key < key) ∧ ∀ c ∈ L₂, key ≤ c.key := by
  obtain ⟨L₁, L₂, hL, hfind, h₁, h₂⟩ := h.cells.findCell h.sorted h.capacity key
  have huse : 0 < t.pager.numPages := by rw [h.numPages]; exact Nat.one_pos
  exact ⟨L₁, L₂, hL, Table.exec_find_leaf h.rootPageNum huse h.type hfind, h₁, h₂⟩

theorem insert_room (h : RootLeaf t (L₁ ++ L₂)) {key : UInt32} (row : UserSchema)
    (hfind : exec (Table.find key) t = (.ok (some ⟨0, L₁.length, false⟩), t))
    (h₁ : ∀ c ∈ L₁, c.key < key) (h₂ : ∀ c ∈ L₂, key < c.key)
    (hroom : (L₁ ++ L₂).length < LeafPage.cellsCapacity) :
    ∃ t', exec (Table.insert key row) t = (.ok (), t') ∧ RootLeaf t' (L₁ ++ ⟨key, row⟩ :: L₂) := by
  obtain ⟨q, hrun, hq, hcells⟩ := Table.exec_executeInsert_room (c := ⟨0, L₁.length, false⟩) key row
    (by rw [h.numPages]; exact Nat.one_pos) (show 0 < maxPages by decide) h.type h.cells rfl hroom
  refine ⟨t.store 0 q, ?_, ?_⟩
  · rw [Table.insert, exec_bind_ok hfind]
    exact hrun
  have hpage : (t.store 0 q).pager.pages 0 = q := by rw [Table.pages_store, setAt_self]
  exact {
    rootPageNum := h.rootPageNum
    type := by rw [hpage, hq.type]; exact h.type
    isRoot := by rw [hpage, hq.isRoot]; exact h.isRoot
    link := by rw [hpage, hq.link]; exact h.link
    cells := by rw [hpage]; exact hcells
    numPages := h.numPages
    fresh := by
      intro n hn
      rw [Table.numPages_store, h.numPages] at hn
      rw [Table.pages_store, setAt_of_ne (by omega)]
      exact h.fresh n (by rw [h.numPages]; exact hn)
    sorted := KeysSorted.insert L₁ L₂ ⟨key, row⟩ h.sorted h₁ h₂
    capacity := by simp only [List.length_append, List.length_cons] at hroom ⊢; omega }

/-- The state `SplitRoot` ends in, from pages `q` and `r` of the split leaf. -/
def afterSplit (t : Table) (q r : Page) (leftMax : UInt32) : Table :=
  (((t.grow.grow.store 0
      { q with type := .internal, isRoot := true, num := 1, link := 1,
               body := .internal (setAt (fun _ => ⟨0, 0⟩) 0 ⟨2, leftMax⟩) }).store
      1 { r with parent := 0 }).store 2 { q with isRoot := false, parent := 0 })

/-- `SplitRoot` on the two halves of the root. -/
theorem exec_splitRoot (h : RootLeaf t L) {q r : Page} {M₁ : List LeafCell} (hq : q.HasCells M₁)
    (hne : M₁ ≠ []) (hroot : q.isRoot = true) :
    exec (Table.splitRoot 1) ((t.grow.store 0 q).store 1 r) =
      (.ok (), afterSplit t q r (lastKey M₁)) :=
  Table.exec_splitRoot h.rootPageNum h.numPages Nat.one_pos (by decide) hq hne hroot

theorem pages_afterSplit {q r : Page} {k : UInt32} (n : Nat) :
    (afterSplit t q r k).pager.pages n =
      if n = 2 then { q with isRoot := false, parent := 0 }
      else if n = 1 then { r with parent := 0 }
      else if n = 0 then
        { q with type := .internal, isRoot := true, num := 1, link := 1,
                 body := .internal (setAt (fun _ => ⟨0, 0⟩) 0 ⟨2, k⟩) }
      else t.pager.pages n := Table.pages_rootSplit n

theorem tree_afterSplit (h : RootLeaf t L) {q r : Page} {M₁ M₂ : List LeafCell}
    (hq : ChildLeaf { q with isRoot := false, parent := 0 } M₁ 1)
    (hr : ChildLeaf { r with parent := 0 } M₂ 0) (hsorted : KeysSorted (M₁ ++ M₂)) :
    Tree (afterSplit t q r (lastKey M₁)) [(2, M₁), (1, M₂)] where
  rootPageNum := h.rootPageNum
  root := by
    rw [pages_afterSplit, if_neg (by omega), if_neg (by omega), if_pos rfl]
    refine ⟨rfl, rfl, fun i x hi hx => ?_, fun x hx => ?_⟩
    · have hi : i < 1 := hi
      obtain rfl : i = 0 := by omega
      cases hx
      rfl
    · cases hx
      rfl
  leaf := by
    intro i x hx
    rw [pages_afterSplit]
    rcases i with _ | _ | i
    · cases hx
      exact hq
    · cases hx
      exact hr
    · simp at hx
  nodup := by simp
  inUse := by
    intro x hx
    show 0 < x.1 ∧ x.1 < t.grow.grow.pager.numPages
    rw [Table.numPages_grow, Table.numPages_grow, h.numPages]
    simp only [List.mem_cons, List.not_mem_nil, or_false] at hx
    rcases hx with rfl | rfl <;> simp
  numPages := by
    show t.grow.grow.pager.numPages = _
    rw [Table.numPages_grow, Table.numPages_grow, h.numPages]
    rfl
  fresh := by
    intro n hn
    have hn : t.grow.grow.pager.numPages ≤ n := hn
    rw [Table.numPages_grow, Table.numPages_grow, h.numPages] at hn
    rw [pages_afterSplit, if_neg (by omega), if_neg (by omega), if_neg (by omega)]
    exact h.fresh n (by rw [h.numPages]; omega)
  sorted := by simpa using hsorted
  two := by simp
  small := by simp

/-- **Insertion into the root leaf when it is full**: a tree of two leaves. The lower half moves
to page 2, and page 1 is the new leaf. -/
theorem insert_split (h : RootLeaf t (L₁ ++ L₂)) {key : UInt32} (row : UserSchema)
    (hfind : exec (Table.find key) t = (.ok (some ⟨0, L₁.length, false⟩), t))
    (h₁ : ∀ c ∈ L₁, c.key < key) (h₂ : ∀ c ∈ L₂, key < c.key)
    (hfull : (L₁ ++ L₂).length = LeafPage.cellsCapacity) :
    ∃ t', exec (Table.insert key row) t = (.ok (), t') ∧
      Tree t' [(2, (L₁ ++ ⟨key, row⟩ :: L₂).take LeafPage.leftSplitCount),
        (1, (L₁ ++ ⟨key, row⟩ :: L₂).drop LeafPage.leftSplitCount)] := by
  have huse : 0 < t.pager.numPages := by rw [h.numPages]; exact Nat.one_pos
  obtain ⟨q, r, hsplit, hq, hr, -, hqtype, hqroot, hqlink, -, hrtype, hrroot, hrlink⟩ :=
    Table.exec_splitLeaf (c := ⟨0, L₁.length, false⟩) key row huse h.numPages_le
      (h.fresh _ (Nat.le_refl _)) h.cells rfl hfull
  have hsorted := KeysSorted.insert L₁ L₂ ⟨key, row⟩ h.sorted h₁ h₂
  have hlen : (L₁ ++ ⟨key, row⟩ :: L₂).length = 14 := length_of_full _ hfull
  generalize L₁ ++ (⟨key, row⟩ : LeafCell) :: L₂ = M at *
  rw [← List.take_append_drop LeafPage.leftSplitCount M] at hsorted
  rw [h.numPages] at hsplit hqlink
  have hq' : ChildLeaf { q with isRoot := false, parent := 0 } (M.take LeafPage.leftSplitCount) 1 :=
    .of_half (by simp [hlen]) (hqtype.trans h.type) rfl rfl hqlink ⟨hq.num, hq.cell⟩
  have hr' : ChildLeaf { r with parent := 0 } (M.drop LeafPage.leftSplitCount) 0 :=
    .of_half (by simp [hlen]) hrtype hrroot rfl (hrlink.trans h.link) ⟨hr.num, hr.cell⟩
  refine ⟨_, ?_, h.tree_afterSplit hq' hr' hsorted⟩
  have hget := Table.exec_getLeafPage huse (by decide) h.type
  have hqroot' : q.isRoot = true := hqroot.trans h.isRoot
  have hcurr : ((t.grow.store 0 q).store 1 r).pager.pages 0 = q := by
    rw [Table.pages_store, setAt_of_ne (by omega), Table.pages_store, setAt_self]
  rw [Table.insert, exec_bind_ok hfind]
  dsimp only
  rw [Table.executeInsert, exec_bind_ok hget,
    if_pos (Nat.le_of_eq (by rw [h.cells.num, hfull])), Table.doInsertAndSplit, exec_bind_ok hsplit]
  simp only [exec_bind, Table.exec_page, hcurr, hqroot', if_true]
  exact h.exec_splitRoot hq hq'.nonempty hqroot'

end RootLeaf

end CxxLab.DbLab
