import CxxLab.DbLab.Scan
import Mathlib.Data.List.Perm.Basic

/-!
# What a table holds after a run of insertions

`MyUT.table_insert` fills a table with one `Insert` after another and then scans it. This file
says what any such run leaves behind.

`Holds` puts the two kinds of table under one roof: the table has these cells, in this order.
One `Insert` puts one cell in (`Holds.insert`), provided that it does not have to split a leaf in
the middle of the tree, and what `Holds` means to a caller is that `Find` lands on every cell and
a scan gives them all (`Holds.find`, `Holds.scan`). Runs are inductions over these.

The proviso cannot be dropped. To split a leaf `DoInsertAndSplit` asks the *parent* for the new
largest key of the *leaf*, and `InsertInternal` then looks a slot up with the number of keys. For
the last leaf neither matters: the first value is written behind the cells in use and the second
is not read. For a leaf in the middle both are used, and two leaves end up behind one separator.
Ascending keys only ever split the last leaf, which is why the test passes; the shape they leave
is `ascending_ingest_shape`.
-/

set_option autoImplicit false

namespace CxxLab.DbLab

open CxxLab.Lib Exec
open scoped List

namespace Table

/-- A run of `Insert`s, given up at the first that does not return OK. -/
def insertAll : List (UInt32 × UserSchema) → DbM Unit
  | [] => pure ()
  | (key, row) :: kvs => do
    insert key row
    insertAll kvs

/-- The child of the root that a key belongs in, if it is full: its place in the root. -/
def fullChild (t : Table) (key : UInt32) : Option Nat :=
  let root := t.pager.pages t.rootPageNum
  if root.type = .internal then do
    let i ← root.internalFindCell key
    let child ← (root.getChildPageNum i).toOption
    if LeafPage.cellsCapacity ≤ (t.pager.pages child).num then some i else none
  else none

/-- The next `Insert` either splits nothing under the root, or splits its right child. -/
def SplitsRightmost (t : Table) (key : UInt32) : Prop :=
  ∀ i, t.fullChild key = some i → i = (t.pager.pages t.rootPageNum).num

/-- The next `Insert` does not need a key more than the root can take. -/
def RootHasRoom (t : Table) (key : UInt32) : Prop :=
  ∀ i, t.fullChild key = some i → (t.pager.pages t.rootPageNum).num < InternalPage.maxCells

/-- Every step of a run is taken in a state that meets `P`. -/
def EveryStep (P : Table → UInt32 → Prop) : Table → List (UInt32 × UserSchema) → Prop
  | _, [] => True
  | t, (key, row) :: kvs => P t key ∧ EveryStep P (exec (insert key row) t).2 kvs

end Table

/-! ## The cells behind a key -/

theorem key_lt_of_new {L : List LeafCell} {key : UInt32} (hle : ∀ c ∈ L, key ≤ c.key)
    (hnew : ∀ c ∈ L, c.key ≠ key) : ∀ c ∈ L, key < c.key := by
  intro c hc
  have := hle c hc
  have := hnew c hc
  grind

/-- From a key on that is above all cells there is none. -/
theorem eq_nil_of_above {L : List LeafCell} {key : UInt32} (hle : ∀ c ∈ L, key ≤ c.key)
    (habove : ∀ c ∈ L, c.key < key) : L = [] := by
  apply List.eq_nil_iff_forall_not_mem.mpr
  intro c hc
  have := hle c hc
  have := habove c hc
  grind

/-- `Insert` into a full leaf of a tree has a full child to split. -/
theorem Tree.fullChild {t : Table} {A B : Leaves} {p : Nat} {L : List LeafCell} {key : UInt32}
    (h : Tree t (A ++ (p, L) :: B)) (hcell : (t.pager.pages 0).internalFindCell key = some A.length)
    (hfull : LeafPage.cellsCapacity ≤ L.length) : t.fullChild key = some A.length := by
  have hp : (A ++ (p, L) :: B)[A.length]? = some (p, L) := by simp
  simp only [Table.fullChild, h.rootPageNum, h.root.type, if_true, hcell, h.getChildPageNum hp,
    Except.toOption, Option.bind_eq_bind, Option.bind_some]
  rw [if_pos (by rw [(h.leaf _ _ hp).cells.num]; exact hfull)]

/-! ## Tables and their cells -/

/-- The table has these cells. -/
inductive Holds (t : Table) : List LeafCell → Prop
  | leaf {L : List LeafCell} (h : RootLeaf t L) : Holds t L
  | tree {lv : Leaves} (h : Tree t lv) : Holds t lv.cells

namespace Holds

variable {t : Table} {L : List LeafCell}

theorem sorted (h : Holds t L) : KeysSorted L := by
  cases h with
  | leaf h => exact h.sorted
  | tree h => exact h.sorted

/-- **`Find` lands on the cell of a key the table has.** -/
theorem find (h : Holds t L) {c : LeafCell} (hc : c ∈ L) :
    ∃ cur, exec (Table.find c.key) t = (.ok (some cur), t) ∧
      cur.cellNum < (t.pager.pages cur.pageNum).num ∧
      (t.pager.pages cur.pageNum).leafCells cur.cellNum = c := by
  -- Both kinds of table leave a leaf, cut at the key, with the cell somewhere in it.
  have hit : ∀ {pg : Page} {L₁ L₂ : List LeafCell}, pg.HasCells (L₁ ++ L₂) → KeysSorted (L₁ ++ L₂) →
      (∀ a ∈ L₁, a.key < c.key) → (∀ a ∈ L₂, c.key ≤ a.key) → c ∈ L₁ ++ L₂ →
      L₁.length < pg.num ∧ pg.leafCells L₁.length = c := by
    intro pg L₁ L₂ hcells hs h₁ h₂ hmem
    have hc₂ : c ∈ L₂ := by
      rcases List.mem_append.mp hmem with h | h
      · have := h₁ c h
        grind
      · exact h
    obtain ⟨d, L₂, rfl⟩ := List.exists_cons_of_ne_nil (List.ne_nil_of_mem hc₂)
    have hd : d = c := by
      rcases List.mem_cons.mp hc₂ with h | h
      · exact h.symm
      · have := (List.pairwise_cons.mp (List.pairwise_append.mp hs).2.1).1 c h
        have := h₂ d (by simp)
        grind
    refine ⟨by rw [hcells.num]; simp, ?_⟩
    rw [hcells.cell L₁.length (by simp)]
    simpa using hd
  cases h with
  | leaf h =>
    obtain ⟨L₁, L₂, rfl, hfind, h₁, h₂⟩ := h.find c.key
    exact ⟨_, hfind, hit h.cells h.sorted h₁ h₂ hc⟩
  | @tree lv h =>
    obtain ⟨A, p, L₁, L₂, B, hlv, hfind, -, hlow, h₂, hB, -⟩ := h.find c.key
    have hp : lv[A.length]? = some (p, L₁ ++ L₂) := by rw [hlv]; simp
    refine ⟨_, hfind, hit (h.leaf _ _ hp).cells (h.sorted.leaf hp)
      (fun a ha => hlow a (List.mem_append_right _ ha)) h₂ ?_⟩
    rw [hlv] at hc
    simp only [Leaves.cells_append, Leaves.cells_cons, List.mem_append] at hc
    rcases hc with hc | hc | hc
    · have := hlow c (List.mem_append_left _ hc)
      grind
    · exact List.mem_append.mpr hc
    · have := hB c hc
      grind

theorem scan (h : Holds t L) {fuel : Nat} (hfuel : L.length ≤ fuel) :
    exec (Table.scan fuel) t = (.ok (L.map LeafCell.val), t) := by
  cases h with
  | leaf h => exact h.exec_scan hfuel
  | tree h => exact h.exec_scan hfuel

/-- **One `Insert` of a new key puts one cell in**, as long as it splits no leaf in the middle. -/
theorem insert (h : Holds t L) {key : UInt32} (row : UserSchema) (hnew : ∀ c ∈ L, c.key ≠ key)
    (hend : t.SplitsRightmost key) (hroom : t.RootHasRoom key) :
    ∃ t' L₁ L₂, L = L₁ ++ L₂ ∧ exec (Table.insert key row) t = (.ok (), t') ∧
      Holds t' (L₁ ++ ⟨key, row⟩ :: L₂) := by
  cases h with
  | leaf h =>
    obtain ⟨L₁, L₂, rfl, hfind, h₁, h₂⟩ := h.find key
    have h₂' := key_lt_of_new h₂ fun c hc => hnew c (List.mem_append_right _ hc)
    rcases Nat.lt_or_ge (L₁ ++ L₂).length LeafPage.cellsCapacity with hlt | hge
    · obtain ⟨t', hrun, hleaf⟩ := h.insert_room row hfind h₁ h₂' hlt
      exact ⟨t', L₁, L₂, rfl, hrun, .leaf hleaf⟩
    · obtain ⟨t', hrun, htree⟩ := h.insert_split row hfind h₁ h₂' (Nat.le_antisymm h.capacity hge)
      refine ⟨t', L₁, L₂, rfl, hrun, ?_⟩
      have := Holds.tree htree
      simpa using this
  | @tree lv h =>
    obtain ⟨A, p, L₁, L₂, B, rfl, hfind, hcell, hlow, h₂, hB, hsep⟩ := h.find key
    have hp : (A ++ (p, L₁ ++ L₂) :: B)[A.length]? = some (p, L₁ ++ L₂) := by simp
    have hat := h.leaf _ _ hp
    have hmem : ∀ c ∈ L₁ ++ L₂, c.key ≠ key := by
      intro c hc
      exact hnew c (Leaves.mem_cells hp hc)
    have h₂' := key_lt_of_new h₂ fun c hc => hmem c (List.mem_append_right _ hc)
    rcases Nat.lt_or_ge (L₁ ++ L₂).length LeafPage.cellsCapacity with hlt | hge
    · obtain ⟨t', hrun, htree⟩ := h.insert_room row hfind hlow
        (fun c hc => (List.mem_append.mp hc).elim (h₂' c) (hB c))
        (fun hne => by
          have := hsep hne
          obtain ⟨c, hc, hck⟩ := exists_lastKey hat.nonempty
          have := hmem c hc
          grind) hlt
      refine ⟨t', A.cells ++ L₁, L₂ ++ B.cells, by simp, hrun, ?_⟩
      have := Holds.tree htree
      simpa using this
    · -- The leaf is full, so the proviso makes it the last one.
      have hfull := h.fullChild hcell hge
      have hlast := hend _ hfull
      have hkeys := hroom _ hfull
      rw [h.rootPageNum] at hlast hkeys
      obtain rfl : B = [] := by
        have hnum := h.root.num
        simp only [List.length_append, List.length_cons] at hnum
        exact List.eq_nil_of_length_eq_zero (by omega)
      obtain ⟨t', hrun, htree⟩ := h.insert_split row hfind hlow h₂'
        (Nat.le_antisymm hat.capacity hge) hkeys
      refine ⟨t', A.cells ++ L₁, L₂, by simp, hrun, ?_⟩
      have := Holds.tree htree
      simpa using this

end Holds

/-! ## Runs in any order -/

/-- The cell a key and its row make. -/
def cellOf (kv : UInt32 × UserSchema) : LeafCell := ⟨kv.1, kv.2⟩

/-- **A run puts all its cells in.** Each step keeps `Holds`, and the keys still to come are not
in the table yet. -/
theorem Holds.insertAll : ∀ (kvs : List (UInt32 × UserSchema)) {t : Table} {L : List LeafCell},
    Holds t L → (kvs.map Prod.fst).Nodup → (∀ kv ∈ kvs, ∀ c ∈ L, c.key ≠ kv.1) →
    Table.EveryStep Table.SplitsRightmost t kvs → Table.EveryStep Table.RootHasRoom t kvs →
    ∃ t' L', exec (Table.insertAll kvs) t = (.ok (), t') ∧ Holds t' L' ∧
      L'.Perm (kvs.map cellOf ++ L) := by
  intro kvs
  induction kvs with
  | nil =>
    intro t L h _ _ _ _
    exact ⟨t, L, rfl, h, List.Perm.refl L⟩
  | cons kv kvs ih =>
    intro t L h hnodup hnew hend hroom
    obtain ⟨key, row⟩ := kv
    obtain ⟨hfst, hnodup⟩ := List.nodup_cons.mp hnodup
    obtain ⟨t₁, L₁, L₂, rfl, hrun, h₁⟩ :=
      h.insert row (fun c hc => hnew (key, row) (by simp) c hc) hend.1 hroom.1
    have hstate : (exec (Table.insert key row) t).2 = t₁ := by rw [hrun]
    have hperm : (L₁ ++ ⟨key, row⟩ :: L₂).Perm (⟨key, row⟩ :: (L₁ ++ L₂)) := List.perm_middle
    obtain ⟨t', L', hruns, h', hperm'⟩ := ih h₁ hnodup
      (by
        intro kv hkv c hc
        rcases List.mem_cons.mp (hperm.mem_iff.mp hc) with rfl | hc
        · intro heq
          exact hfst (List.mem_map.mpr ⟨kv, hkv, heq.symm⟩)
        · exact hnew kv (by simp [hkv]) c hc)
      (hstate ▸ hend.2) (hstate ▸ hroom.2)
    refine ⟨t', L', ?_, h', ?_⟩
    · rw [Table.insertAll, exec_bind_ok hrun]
      exact hruns
    · calc L' ~ kvs.map cellOf ++ (L₁ ++ ⟨key, row⟩ :: L₂) := hperm'
        _ ~ kvs.map cellOf ++ ⟨key, row⟩ :: (L₁ ++ L₂) := hperm.append_left _
        _ ~ ((key, row) :: kvs).map cellOf ++ (L₁ ++ L₂) := List.perm_middle

/-- What the table is for, after these insertions into a new one: they all return OK, the scan gives
the rows in ascending order of their keys, and `Find` lands on the cell of each key.

The cells are those of the insertions, each once. A scan has fuel for the chain of leaves and is to
end with enough of it; `Find` returns a cursor, and the cell it points at has to be one that is in
use. -/
def ActsAsMap (kvs : List (UInt32 × UserSchema)) : Prop :=
  ∃ t L, exec (Table.insertAll kvs) Table.openEmpty = (.ok (), t) ∧ KeysSorted L ∧
    L.Perm (kvs.map cellOf) ∧
    (∀ fuel, kvs.length ≤ fuel → exec (Table.scan fuel) t = (.ok (L.map LeafCell.val), t)) ∧
    ∀ kv ∈ kvs, ∃ cur, exec (Table.find kv.1) t = (.ok (some cur), t) ∧
      cur.cellNum < (t.pager.pages cur.pageNum).num ∧
      (t.pager.pages cur.pageNum).leafCells cur.cellNum = cellOf kv

theorem Holds.actsAsMap {kvs : List (UInt32 × UserSchema)} {t : Table} {L : List LeafCell}
    (hrun : exec (Table.insertAll kvs) Table.openEmpty = (.ok (), t)) (h : Holds t L)
    (hperm : L.Perm (kvs.map cellOf)) : ActsAsMap kvs := by
  refine ⟨t, L, hrun, h.sorted, hperm, fun fuel hfuel => h.scan ?_, fun kv hkv => ?_⟩
  · rw [hperm.length_eq, List.length_map]
    exact hfuel
  · exact h.find (c := cellOf kv) (hperm.mem_iff.mpr (List.mem_map_of_mem hkv))

theorem Table.EveryStep.initial {P : Table → UInt32 → Prop} :
    ∀ {pre kvs : List (UInt32 × UserSchema)} {t : Table}, pre <+: kvs → EveryStep P t kvs →
      EveryStep P t pre := by
  intro pre
  induction pre with
  | nil => intro kvs t _ _; trivial
  | cons kv pre ih =>
    intro kvs t hpre hstep
    obtain ⟨rest, rfl⟩ := hpre
    exact ⟨hstep.1, ih (List.prefix_append pre rest) hstep.2⟩

/-- **The table is an ordered map, as long as only the rightmost leaf is split**: at every point of
a run of insertions of distinct keys.

`SplitsRightmost` is asked of the state before each step: a leaf that is full and has to take a key
is the root's right child. Where another one is split, two leaves end up behind one separator, and
keys are no longer found. `RootHasRoom` keeps the tree at two levels. What is carried through the
run is `Holds`, that the pages are a chain of leaves with these cells in the order of their keys;
what `Find` and a scan make of such pages is read off at the end. -/
theorem insertAll_actsAsMap (kvs : List (UInt32 × UserSchema)) (hnodup : (kvs.map Prod.fst).Nodup)
    (hroom : Table.EveryStep Table.RootHasRoom Table.openEmpty kvs)
    (hend : Table.EveryStep Table.SplitsRightmost Table.openEmpty kvs) :
    ∀ pre, pre <+: kvs → ActsAsMap pre := by
  intro pre hpre
  obtain ⟨t, L, hrun, h, hperm⟩ := (Holds.leaf RootLeaf.openEmpty).insertAll pre
    (hnodup.sublist (hpre.sublist.map Prod.fst)) (by simp) (hend.initial hpre)
    (hroom.initial hpre)
  exact h.actsAsMap hrun (by simpa using hperm)

instance (t : Table) (key : UInt32) : Decidable (t.SplitsRightmost key) :=
  inferInstanceAs (Decidable (∀ i ∈ t.fullChild key, i = (t.pager.pages t.rootPageNum).num))

instance (t : Table) (key : UInt32) : Decidable (t.RootHasRoom key) :=
  inferInstanceAs (Decidable (∀ i ∈ t.fullChild key,
    (t.pager.pages t.rootPageNum).num < InternalPage.maxCells))

instance Table.EveryStep.decidable {P : Table → UInt32 → Prop} [∀ t key, Decidable (P t key)] :
    ∀ t kvs, Decidable (Table.EveryStep P t kvs)
  | _, [] => .isTrue trivial
  | t, (key, row) :: kvs =>
    @instDecidableAnd _ _ _ (decidable (exec (Table.insert key row) t).2 kvs)

/-- Rows that hold nothing but their key. -/
def idRows (keys : List UInt32) : List (UInt32 × UserSchema) :=
  keys.map fun k => (k, { UserSchema.zero with id := k })

/-- Keys in no order, which split the root and then the leaf behind it. -/
def rightmostSplits : List UInt32 :=
  [50, 10, 40, 20, 30, 60, 70, 65, 90, 80, 100, 120, 110, 5, 15, 75, 85, 105, 66, 67, 68, 69]

theorem insertAll_actsAsMap_unordered :
    ActsAsMap (idRows rightmostSplits) ∧ ActsAsMap (idRows (rightmostSplits.take 14)) :=
  ⟨insertAll_actsAsMap (idRows rightmostSplits) (by decide) (by decide +kernel) (by decide +kernel)
      _ (List.prefix_refl _),
    insertAll_actsAsMap (idRows rightmostSplits) (by decide) (by decide +kernel) (by decide +kernel)
      _ ((List.take_prefix 14 rightmostSplits).map _)⟩

/-- Fourteen ascending keys make two leaves, and seven more fill the first of them and split it. -/
def middleSplit : List UInt32 :=
  [10, 20, 30, 40, 50, 60, 70, 80, 90, 100, 110, 120, 130, 140, 11, 12, 13, 14, 15, 16, 17]

/-- After a split in the middle `Find(10)` is on the cell of 17. -/
theorem not_actsAsMap_middleSplit :
    ¬ ∀ kvs : List (UInt32 × UserSchema), (kvs.map Prod.fst).Nodup →
      Table.EveryStep Table.RootHasRoom Table.openEmpty kvs → ActsAsMap kvs := by
  intro hall
  obtain ⟨t, L, hrun, -, -, -, hfind⟩ := hall (idRows middleSplit) (by decide) (by decide +kernel)
  obtain ⟨cur, hcur, -, hcell⟩ := hfind (10, { UserSchema.zero with id := 10 })
    (List.mem_map.mpr ⟨10, by decide, rfl⟩)
  have hland : (exec (Table.find 10)
      (exec (Table.insertAll (idRows middleSplit)) Table.openEmpty).2).1 =
      .ok (some ⟨3, 0, false⟩) := by decide +kernel
  have hkey : (((exec (Table.insertAll (idRows middleSplit)) Table.openEmpty).2.pager.pages
      3).leafCells 0).key = 17 := by decide +kernel
  -- From here on the two runs are only what is known of them.
  generalize exec (Table.insertAll (idRows middleSplit)) Table.openEmpty = run at hrun hland hkey
  subst hrun
  generalize exec (Table.find 10) t = res at hcur hland
  subst hcur
  obtain rfl : cur = ⟨3, 0, false⟩ := Option.some.inj (Except.ok.inj hland)
  rw [hcell] at hkey
  exact absurd hkey (by decide)

/-! ## Ascending runs -/

/-- The tables an ascending run goes through. Once there is a tree, every leaf but the last has
the seven cells a split left it with, and the last one those and what came since. -/
inductive Ascended (t : Table) : List LeafCell → Prop
  | leaf {L : List LeafCell} (h : RootLeaf t L) : Ascended t L
  | tree {A : Leaves} {p : Nat} {L : List LeafCell} (h : Tree t (A ++ [(p, L)]))
      (hA : ∀ x ∈ A, x.2.length = LeafPage.leftSplitCount) (hL : LeafPage.rightSplitCount ≤ L.length) :
      Ascended t (A.cells ++ L)

theorem Leaves.length_cells {n : Nat} : ∀ {A : Leaves}, (∀ x ∈ A, x.2.length = n) →
    A.cells.length = n * A.length := by
  intro A
  induction A with
  | nil => intro _; rfl
  | cons x A ih =>
    intro h
    obtain ⟨p, L⟩ := x
    have hL : L.length = n := h (p, L) (by simp)
    rw [Leaves.cells_cons, List.length_append, ih fun y hy => h y (by simp [hy]), List.length_cons,
      hL, Nat.mul_succ, Nat.add_comm]

namespace Ascended

variable {t : Table} {L : List LeafCell}

theorem holds (h : Ascended t L) : Holds t L := by
  cases h with
  | leaf h => exact .leaf h
  | tree h _ _ =>
    have := Holds.tree h
    simpa using this

/-- Nothing is behind a key above all others: its place is behind the last cell of the last leaf. -/
theorem find_above {A : Leaves} {p : Nat} (h : Tree t (A ++ [(p, L)])) {key : UInt32}
    (habove : ∀ c ∈ A.cells ++ L, c.key < key) :
    exec (Table.find key) t = (.ok (some ⟨p, L.length, false⟩), t) := by
  obtain ⟨A', p', L₁, L₂, B, hlv, hfind, -, -, h₂, hB, -⟩ := h.find key
  have hall : ∀ c ∈ A'.cells ++ (L₁ ++ L₂ ++ B.cells), c.key < key := by
    intro c hc
    apply habove
    have hcells := congrArg Leaves.cells hlv
    simp only [Leaves.cells_append, Leaves.cells_cons, Leaves.cells_nil, List.append_nil] at hcells
    rw [hcells]
    exact hc
  obtain rfl : L₂ = [] := eq_nil_of_above h₂ fun c hc => hall c (by simp [hc])
  obtain rfl : B = [] := by
    rcases B with _ | ⟨⟨q, Q⟩, B⟩
    · rfl
    · obtain ⟨c, hc⟩ := List.exists_mem_of_ne_nil Q (h.chain.nonempty (q, Q) (by rw [hlv]; simp))
      have hafter := hB c (by simp [hc])
      exact absurd (hall c (by simp [hc])) (UInt32.not_lt.mpr (UInt32.le_of_lt hafter))
  obtain ⟨-, hlast⟩ := List.append_inj' hlv rfl
  cases List.singleton_inj.mp hlast
  rwa [List.append_nil]

/-- The last leaf of a tree takes the cell, and is split when it is full. -/
theorem insert_tree {A : Leaves} {p : Nat} (h : Tree t (A ++ [(p, L)]))
    (hA : ∀ x ∈ A, x.2.length = LeafPage.leftSplitCount) (hL : LeafPage.rightSplitCount ≤ L.length)
    {key : UInt32} (row : UserSchema) (habove : ∀ c ∈ A.cells ++ L, c.key < key)
    (hsize : ((A.cells ++ L).length + 1) / 7 - 1 ≤ InternalPage.maxCells) :
    ∃ t', exec (Table.insert key row) t = (.ok (), t') ∧
      Ascended t' (A.cells ++ L ++ [⟨key, row⟩]) := by
  have hfind := find_above h habove
  have hnum := h.root.num
  have hcells := Leaves.length_cells hA
  have hcap := (h.leaf A.length (p, L) (by simp)).capacity
  have hsame : Tree t (A ++ [(p, L ++ [])]) := by rwa [List.append_nil]
  simp only [List.length_append, List.length_cons, List.length_nil, leftSplitCount_eq,
    rightSplitCount_eq, cellsCapacity_eq, maxCells_eq] at hnum hcells hcap hsize hL hA
  rw [List.append_assoc]
  rcases Nat.lt_or_ge L.length 13 with hlt | hge
  · obtain ⟨t', hrun, htree⟩ := hsame.insert_room (B := []) row hfind habove (by simp)
      (fun hne => absurd rfl hne) (by simpa using hlt)
    exact ⟨t', hrun, .tree htree hA (by simp; omega)⟩
  · have hlen : L.length = 13 := Nat.le_antisymm hcap hge
    obtain ⟨t', hrun, htree⟩ := hsame.insert_split row hfind habove (by simp) (by simp [hlen])
      (by simp; omega)
    refine ⟨t', hrun, ?_⟩
    rw [List.append_cons] at htree
    have hafter := Ascended.tree htree
      (by
        intro x hx
        rcases List.mem_append.mp hx with hx | hx
        · exact hA x hx
        · rw [List.mem_singleton.mp hx]
          simp [hlen]) (by simp [hlen])
    simpa using hafter

/-- **A key above all others** goes behind the last cell, and a split cuts seven cells off. -/
theorem insert (h : Ascended t L) {key : UInt32} (row : UserSchema) (habove : ∀ c ∈ L, c.key < key)
    (hsize : (L.length + 1) / 7 - 1 ≤ InternalPage.maxCells) :
    ∃ t', exec (Table.insert key row) t = (.ok (), t') ∧ Ascended t' (L ++ [⟨key, row⟩]) := by
  cases h with
  | leaf h =>
    obtain ⟨L₁, L₂, rfl, hfind, h₁, h₂⟩ := h.find key
    obtain rfl : L₂ = [] :=
      eq_nil_of_above h₂ fun c hc => habove c (List.mem_append_right _ hc)
    rw [List.append_nil]
    rcases Nat.lt_or_ge (L₁ ++ []).length LeafPage.cellsCapacity with hlt | hge
    · obtain ⟨t', hrun, hleaf⟩ := h.insert_room row hfind h₁ (by simp) hlt
      exact ⟨t', hrun, .leaf hleaf⟩
    · have hfull := Nat.le_antisymm h.capacity hge
      obtain ⟨t', hrun, htree⟩ := h.insert_split row hfind h₁ (by simp) hfull
      refine ⟨t', hrun, ?_⟩
      rw [List.append_nil, cellsCapacity_eq] at hfull
      have := Ascended.tree (A := [(2, _)]) htree (by simp [hfull]) (by simp [hfull])
      simpa using this
  | tree h hA hL => exact insert_tree h hA hL row habove hsize

/-- The run lemma: the cells are in the order they came. -/
theorem insertAll : ∀ (kvs : List (UInt32 × UserSchema)) {t : Table} {L : List LeafCell},
    Ascended t L → (kvs.map Prod.fst).Pairwise (· < ·) → (∀ kv ∈ kvs, ∀ c ∈ L, c.key < kv.1) →
    (L.length + kvs.length) / 7 - 1 ≤ InternalPage.maxCells →
    ∃ t', exec (Table.insertAll kvs) t = (.ok (), t') ∧ Ascended t' (L ++ kvs.map cellOf) := by
  intro kvs
  induction kvs with
  | nil =>
    intro t L h _ _ _
    exact ⟨t, rfl, by simpa using h⟩
  | cons kv kvs ih =>
    intro t L h hasc habove hsize
    obtain ⟨key, row⟩ := kv
    obtain ⟨hfst, hasc⟩ := List.pairwise_cons.mp hasc
    rw [List.length_cons] at hsize
    obtain ⟨t₁, hrun, h₁⟩ := h.insert row (fun c hc => habove (key, row) (by simp) c hc) (by omega)
    obtain ⟨t', hruns, h'⟩ := ih h₁ hasc
      (by
        intro kv hkv c hc
        rcases List.mem_append.mp hc with hc | hc
        · exact habove kv (by simp [hkv]) c hc
        · rw [List.mem_singleton.mp hc]
          exact hfst kv.1 (List.mem_map_of_mem hkv))
      (by simp only [List.length_append, List.length_singleton]; omega)
    refine ⟨t', ?_, by simpa [cellOf] using h'⟩
    rw [Table.insertAll, exec_bind_ok hrun]
    exact hruns

end Ascended

/-- The shape of the tree behind `n ≥ 14` ascending keys. -/
structure AscendingShape (t : Table) (n : Nat) : Prop where
  type : (t.pager.pages t.rootPageNum).type = .internal
  numKeys : (t.pager.pages t.rootPageNum).num = n / 7 - 1
  keys : ∀ i j, i < j → j < (t.pager.pages t.rootPageNum).num →
    ((t.pager.pages t.rootPageNum).slots i).key < ((t.pager.pages t.rootPageNum).slots j).key
  /-- A child with a key is a leaf of seven cells with that largest key, and is linked to the next
  child. -/
  child : ∀ i, i < (t.pager.pages t.rootPageNum).num →
    ∃ p q, (t.pager.pages t.rootPageNum).getChildPageNum i = .ok p ∧
      (t.pager.pages t.rootPageNum).getChildPageNum (i + 1) = .ok q ∧
      (t.pager.pages p).type = .leaf ∧ (t.pager.pages p).num = LeafPage.leftSplitCount ∧
      (t.pager.pages p).leafGetMaxKey = .ok ((t.pager.pages t.rootPageNum).slots i).key ∧
      (t.pager.pages p).link = q
  last : ∃ p, (t.pager.pages t.rootPageNum).getChildPageNum (t.pager.pages t.rootPageNum).num = .ok p ∧
    (t.pager.pages p).type = .leaf ∧ (t.pager.pages p).link = 0

theorem Ascended.shape {t : Table} {A : Leaves} {p : Nat} {L : List LeafCell}
    (h : Tree t (A ++ [(p, L)])) (hA : ∀ x ∈ A, x.2.length = LeafPage.leftSplitCount)
    (hL : LeafPage.rightSplitCount ≤ L.length) :
    AscendingShape t (A.cells ++ L).length ∧
      t.pager.numPages = (A.cells ++ L).length / 7 + 1 := by
  have hp : (A ++ [(p, L)])[A.length]? = some (p, L) := by simp
  have hnum : (t.pager.pages 0).num = A.length := by have := h.root.num; simp at this; exact this
  have hcells := Leaves.length_cells hA
  have hcap := (h.leaf _ _ hp).capacity
  have hpages := h.numPages
  simp only [leftSplitCount_eq, rightSplitCount_eq, cellsCapacity_eq, List.length_append,
    List.length_cons, List.length_nil] at hcells hcap hL hpages
  have hdiv : (A.cells ++ L).length / 7 = A.length + 1 := by
    rw [List.length_append]
    omega
  refine ⟨?_, by omega⟩
  constructor <;> rw [h.rootPageNum]
  · exact h.root.type
  · omega
  · intro i j hij hj
    exact h.slots_lt hij hj
  · intro i hi
    have hlt : i < (A ++ [(p, L)]).length := by simp; omega
    have hx : (A ++ [(p, L)])[i]? = some (A ++ [(p, L)])[i] := List.getElem?_eq_getElem hlt
    obtain ⟨y, hy⟩ : ∃ y, (A ++ [(p, L)])[i + 1]? = some y :=
      ⟨_, List.getElem?_eq_getElem (by simp; omega)⟩
    have hat := h.leaf _ _ hx
    have hmem : (A ++ [(p, L)])[i] ∈ A := by
      rw [List.getElem_append_left (by omega)]
      exact List.getElem_mem _
    refine ⟨_, _, h.getChildPageNum hx, h.getChildPageNum hy, hat.type, ?_, ?_, ?_⟩
    · rw [hat.cells.num, hA _ hmem]
    · rw [hat.cells.leafGetMaxKey hat.nonempty, h.root.slot i _ hi hx]
    · rw [hat.link, Leaves.next, hy]
      rfl
  · rw [hnum]
    refine ⟨_, h.getChildPageNum hp, (h.leaf _ _ hp).type, ?_⟩
    rw [(h.leaf _ _ hp).link]
    simp [Leaves.next]

/-- **Ascending keys leave an exact shape behind.** As each key is greater than those before it,
only the last leaf is ever split, and each split leaves seven cells on its left and goes on with
seven on its right. So the number of rows alone says how many pages there are, what stands in each
and which keys the root has. All of it is in the invariant `Ascended`, and that every key is found
and a scan gives the rows in their order follows from it. -/
theorem ascending_ingest_shape (kvs : List (UInt32 × UserSchema))
    (hasc : (kvs.map Prod.fst).Pairwise (· < ·))
    (hsize : kvs.length / 7 - 1 ≤ InternalPage.maxCells) :
    ∃ t, exec (Table.insertAll kvs) Table.openEmpty = (.ok (), t) ∧
      (kvs.length ≤ 13 → t.pager.numPages = 1) ∧
      (14 ≤ kvs.length → t.pager.numPages = kvs.length / 7 + 1 ∧ AscendingShape t kvs.length) ∧
      (∀ kv ∈ kvs, ∃ cur, exec (Table.find kv.1) t = (.ok (some cur), t) ∧
        cur.cellNum < (t.pager.pages cur.pageNum).num ∧
        (t.pager.pages cur.pageNum).leafCells cur.cellNum = cellOf kv) ∧
      ∀ fuel, kvs.length ≤ fuel → exec (Table.scan fuel) t = (.ok (kvs.map Prod.snd), t) := by
  obtain ⟨t, hrun, h⟩ := (Ascended.leaf RootLeaf.openEmpty).insertAll kvs hasc (by simp)
    (by simpa using hsize)
  have hholds := h.holds
  generalize hcells : [] ++ kvs.map cellOf = cells at h hholds
  rw [List.nil_append] at hcells
  have hlen : cells.length = kvs.length := by rw [← hcells, List.length_map]
  refine ⟨t, hrun, ?_, ?_, ?_, ?_⟩
  · intro hn
    cases h with
    | leaf h => exact h.numPages
    | tree h hA hL =>
      have hA' := Leaves.length_cells hA
      have := h.two
      simp only [leftSplitCount_eq, rightSplitCount_eq, List.length_append, List.length_cons,
        List.length_nil] at hA' hL hlen this
      omega
  · intro hn
    cases h with
    | leaf h =>
      have := h.capacity
      rw [hlen, cellsCapacity_eq] at this
      omega
    | tree h hA hL =>
      obtain ⟨hshape, hpages⟩ := Ascended.shape h hA hL
      rw [hlen] at hshape hpages
      exact ⟨hpages, hshape⟩
  · intro kv hkv
    exact hholds.find (c := cellOf kv) (by rw [← hcells]; exact List.mem_map_of_mem hkv)
  · intro fuel hfuel
    rw [hholds.scan (by omega), ← hcells, List.map_map]
    rfl

/-- Thirty ascending keys. -/
theorem ascending_ingest_thirty :
    ∃ t, exec (Table.insertAll (idRows ((List.range 30).map UInt32.ofNat))) Table.openEmpty =
        (.ok (), t) ∧ t.pager.numPages = 5 ∧ AscendingShape t 30 := by
  obtain ⟨t, hrun, -, hshape, -⟩ :=
    ascending_ingest_shape (idRows ((List.range 30).map UInt32.ofNat)) (by decide) (by decide)
  exact ⟨t, hrun, hshape (by decide)⟩

end CxxLab.DbLab
