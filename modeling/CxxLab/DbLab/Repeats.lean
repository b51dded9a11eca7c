import CxxLab.DbLab.Ingest

/-!
# Repeated keys

`Insert` does not ask whether a key is in the table already. It puts the new cell where `FindCell`
stops, and so a leaf stays in the order of its keys, with equal keys side by side.

`FindCell` stops on *any* cell with the key. That is all an insertion needs, but `StartCursor` takes
the cell `Find(0)` stops on for the first one. It is the first one unless the key 0 is there twice:
the middle of two cells or more is never the first of them, so the second 0 is found before the
first is looked at, and a scan leaves out what is in front of it.
-/

set_option autoImplicit false

namespace CxxLab.DbLab

open CxxLab.Lib Exec
open scoped List

/-- Keys in ascending order, repeated or not. -/
def KeysOrdered (L : List LeafCell) : Prop := L.Pairwise fun a b => a.key ≤ b.key

/-- A table that is one leaf, with its cells in the order of their keys. -/
structure OrderedLeaf (t : Table) (L : List LeafCell) : Prop where
  rootPageNum : t.rootPageNum = 0
  type : (t.pager.pages 0).type = .leaf
  link : (t.pager.pages 0).link = 0
  cells : (t.pager.pages 0).HasCells L
  numPages : t.pager.numPages = 1
  ordered : KeysOrdered L
  capacity : L.length ≤ LeafPage.cellsCapacity

theorem KeysOrdered.insert {L₁ L₂ : List LeafCell} {c : LeafCell} (h : KeysOrdered (L₁ ++ L₂))
    (h₁ : ∀ a ∈ L₁, a.key ≤ c.key) (h₂ : ∀ a ∈ L₂, c.key ≤ a.key) : KeysOrdered (L₁ ++ c :: L₂) :=
  pairwise_insert h h₁ h₂

/-- Behind a key that is not 0 there is none that is. -/
theorem KeysOrdered.zero_not_mem {a b : LeafCell} {L : List LeafCell}
    (h : KeysOrdered (a :: b :: L)) (hb : b.key ≠ 0) : (0 : UInt32) ∉ (b :: L).map LeafCell.key := by
  intro hmem
  obtain ⟨c, hc, hkey⟩ := List.mem_map.mp hmem
  have hbc : b.key ≤ c.key := by
    rcases List.mem_cons.mp hc with rfl | hc
    · exact UInt32.le_refl _
    · exact (List.pairwise_cons.mp (List.pairwise_cons.mp h).2).1 c hc
  rw [hkey] at hbc
  exact hb (UInt32.le_zero_iff.mp hbc)

namespace OrderedLeaf

variable {t : Table} {L : List LeafCell}

theorem openEmpty : OrderedLeaf Table.openEmpty [] where
  rootPageNum := rfl
  type := rfl
  link := rfl
  cells := ⟨rfl, fun i hi => absurd hi (Nat.not_lt_zero i)⟩
  numPages := rfl
  ordered := List.Pairwise.nil
  capacity := Nat.zero_le _

/-- `FindCell` in terms of the list: a cut at the key, which may be anywhere among cells that have
it. -/
theorem findCell (h : OrderedLeaf t L) (key : UInt32) :
    ∃ i, (t.pager.pages 0).leafFindCell key = some i ∧ i ≤ L.length ∧
      (∀ c ∈ L.take i, c.key ≤ key) ∧ (∀ c ∈ L.drop i, key ≤ c.key) ∧
      ((∃ c ∈ L, c.key = key) → ∃ hi : i < L.length, L[i].key = key) := by
  obtain ⟨hnum, hcell⟩ := h.cells
  have hkeys : ∀ i j, i ≤ j → j < (t.pager.pages 0).num →
      ((t.pager.pages 0).leafCells i).key ≤ ((t.pager.pages 0).leafCells j).key := by
    intro i j hij hj
    rw [hnum] at hj
    rw [hcell i (by omega), hcell j hj]
    rcases Nat.eq_or_lt_of_le hij with rfl | hlt
    · exact UInt32.le_refl _
    · exact List.pairwise_iff_getElem.mp h.ordered i j (by omega) hj hlt
  obtain ⟨i, hi, hle, hbelow, habove, hhit⟩ :=
    Page.leafFindCell_spec key (hnum ▸ h.capacity) hkeys
  rw [hnum] at hle habove hhit
  refine ⟨i, hi, hle, fun c hc => ?_, fun c hc => ?_, ?_⟩
  · obtain ⟨j, hj, rfl⟩ := List.mem_iff_getElem.mp hc
    rw [List.length_take] at hj
    rw [List.getElem_take, ← hcell j (by omega)]
    exact hbelow j (by omega)
  · obtain ⟨j, hj, rfl⟩ := List.mem_iff_getElem.mp hc
    rw [List.length_drop] at hj
    rw [List.getElem_drop, ← hcell (i + j) (by omega)]
    exact habove (i + j) (Nat.le_add_right i j) (by omega)
  · rintro ⟨c, hc, hkey⟩
    obtain ⟨j, hj, rfl⟩ := List.mem_iff_getElem.mp hc
    obtain ⟨hlt, hi⟩ := hhit ⟨j, hj, by rw [hcell j hj, hkey]⟩
    exact ⟨hlt, by rw [← hcell i hlt, hi]⟩

theorem find (h : OrderedLeaf t L) {key : UInt32} {i : Nat}
    (hi : (t.pager.pages 0).leafFindCell key = some i) :
    exec (Table.find key) t = (.ok (some ⟨0, i, false⟩), t) :=
  Table.exec_find_leaf h.rootPageNum (by rw [h.numPages]; exact Nat.one_pos) h.type hi

/-- **One `Insert`**, of any key. -/
theorem insert (h : OrderedLeaf t L) (key : UInt32) (row : UserSchema)
    (hroom : L.length < LeafPage.cellsCapacity) :
    ∃ t' L₁ L₂, L = L₁ ++ L₂ ∧ exec (Table.insert key row) t = (.ok (), t') ∧
      OrderedLeaf t' (L₁ ++ ⟨key, row⟩ :: L₂) := by
  obtain ⟨i, hi, hle, hbelow, habove, -⟩ := h.findCell key
  have hL : L.take i ++ L.drop i = L := List.take_append_drop i L
  have hlen : (L.take i).length = i := by rw [List.length_take, Nat.min_eq_left hle]
  obtain ⟨q, hrun, hq, hcells⟩ := @Table.exec_executeInsert_room t ⟨0, i, false⟩
    (L.take i) (L.drop i) key row (by rw [h.numPages]; exact Nat.one_pos)
    (show 0 < maxPages by decide) h.type (hL.symm ▸ h.cells) hlen.symm (hL.symm ▸ hroom)
  have hpage : (t.store 0 q).pager.pages 0 = q := by rw [Table.pages_store, setAt_self]
  refine ⟨t.store 0 q, L.take i, L.drop i, hL.symm, ?_, ?_⟩
  · rw [Table.insert, exec_bind_ok (h.find hi)]
    exact hrun
  · exact {
      rootPageNum := h.rootPageNum
      type := by rw [hpage, hq.type]; exact h.type
      link := by rw [hpage, hq.link]; exact h.link
      cells := by rw [hpage]; exact hcells
      numPages := h.numPages
      ordered := KeysOrdered.insert (hL.symm ▸ h.ordered) hbelow habove
      capacity := by
        rw [List.length_append, List.length_cons, hlen, List.length_drop]
        omega }

/-- **A run of `Insert`s** that fits into one leaf. -/
theorem insertAll : ∀ (kvs : List (UInt32 × UserSchema)) {t : Table} {L : List LeafCell},
    OrderedLeaf t L → kvs.length + L.length ≤ LeafPage.cellsCapacity →
    ∃ t' L', exec (Table.insertAll kvs) t = (.ok (), t') ∧ OrderedLeaf t' L' ∧
      L'.Perm (kvs.map cellOf ++ L) := by
  intro kvs
  induction kvs with
  | nil =>
    intro t L h _
    exact ⟨t, L, rfl, h, List.Perm.refl L⟩
  | cons kv kvs ih =>
    intro t L h hroom
    obtain ⟨key, row⟩ := kv
    rw [List.length_cons] at hroom
    obtain ⟨t₁, L₁, L₂, rfl, hrun, h₁⟩ := h.insert key row (by omega)
    obtain ⟨t', L', hruns, h', hperm⟩ := ih h₁ (by
      simp only [List.length_append, List.length_cons] at hroom ⊢
      omega)
    refine ⟨t', L', ?_, h', ?_⟩
    · rw [Table.insertAll, exec_bind_ok hrun]
      exact hruns
    · calc L' ~ kvs.map cellOf ++ (L₁ ++ ⟨key, row⟩ :: L₂) := hperm
        _ ~ kvs.map cellOf ++ ⟨key, row⟩ :: (L₁ ++ L₂) := List.perm_middle.append_left _
        _ ~ ((key, row) :: kvs).map cellOf ++ (L₁ ++ L₂) := List.perm_middle

/-! ## Where a scan starts -/

/-- **A scan starts on the cell `FindCell(0)` stops on**, and leaves out those in front of it. -/
theorem exec_scan (h : OrderedLeaf t L) {i fuel : Nat}
    (hi : (t.pager.pages 0).leafFindCell 0 = some i) (hfuel : L.length ≤ fuel) :
    exec (Table.scan fuel) t = (.ok ((L.drop i).map LeafCell.val), t) := by
  have hget := Table.exec_getLeafPage (t := t) (n := 0) (by rw [h.numPages]; exact Nat.one_pos)
    (by decide) h.type
  have hstart : exec Table.startCursor t = (.ok ⟨0, i, decide (L.length = 0)⟩, t) := by
    rw [Table.startCursor, exec_bind_ok (h.find hi)]
    simp [exec_map, hget, h.cells.num]
  rw [Table.scan, exec_bind_ok hstart]
  rcases Nat.eq_zero_or_pos L.length with hzero | hpos
  · rw [List.length_eq_zero_iff.mp hzero, List.drop_nil]
    exact Chain.exec_scanFrom_end fuel rfl
  · have hne : L ≠ [] := List.length_pos_iff.mp hpos
    obtain ⟨i', hi', hle, hbelow, -, hhit⟩ := h.findCell 0
    cases hi.symm.trans hi'
    -- Behind the last cell would mean that all keys are below 0, or 0 and found.
    have hlt : i < L.length := by
      by_contra hge
      obtain ⟨hlt, -⟩ := hhit ⟨L[0], List.getElem_mem hpos,
        UInt32.le_zero_iff.mp (hbelow L[0] (by
          rw [List.take_of_length_le (Nat.not_lt.mp hge)]
          exact List.getElem_mem hpos))⟩
      exact hge hlt
    have hsplit : [(0, L)] = [] ++ (0, L.take i ++ L[i] :: L.drop (i + 1)) :: [] := by
      rw [List.getElem_cons_drop, List.take_append_drop, List.nil_append]
    have hlen : (L.take i).length = i := by rw [List.length_take, Nat.min_eq_left hle]
    have := (Chain.single h.numPages h.type h.cells h.link h.capacity hne).exec_scanFrom fuel [] 0
      (L.take i) L[i] (L.drop (i + 1)) [] hsplit (by
        rw [Leaves.cells_nil, List.append_nil, List.getElem_cons_drop, List.length_drop]
        omega)
    rw [hlen, Leaves.cells_nil, List.append_nil, List.getElem_cons_drop] at this
    simpa [Nat.pos_iff_ne_zero.mp hpos] using this

/-- A search that stops on the first of several cells has looked at the second one. -/
theorem second_ne_zero {a b : LeafCell} (h : OrderedLeaf t (a :: b :: L))
    (hi : (t.pager.pages 0).leafFindCell 0 = some 0) : b.key ≠ 0 := by
  intro hkey
  have hnum : (t.pager.pages 0).num = L.length + 2 := h.cells.num
  have hone : (t.pager.pages 0).leafCells 1 = b := h.cells.cell 1 (by simp)
  have hhere : (t.pager.pages 0).leafProbe 0 1 = some .here := by
    simp [Page.leafProbe, Page.getCellKeyVal, (Page.leafCellOk_iff 1).mpr (by decide), hone, hkey]
  exact Nat.lt_irrefl 0 (lt_bisect (by omega) hhere hi)

/-- **`FindCell(0)` stops on the first cell** unless the key 0 is there twice. -/
theorem findCell_zero_iff (h : OrderedLeaf t L) {i : Nat}
    (hi : (t.pager.pages 0).leafFindCell 0 = some i) :
    i = 0 ↔ (L.map LeafCell.key).count 0 ≤ 1 := by
  constructor
  · rintro rfl
    cases L with
    | nil => exact Nat.zero_le 1
    | cons a L =>
      cases L with
      | nil => exact List.count_le_length
      | cons b L =>
        rw [List.map_cons, List.count_cons,
          List.count_eq_zero_of_not_mem (h.ordered.zero_not_mem (h.second_ne_zero hi))]
        split <;> omega
  · intro hcount
    by_contra hne
    obtain ⟨i', hi', hle, hbelow, -, hhit⟩ := h.findCell 0
    cases hi.symm.trans hi'
    obtain ⟨j, rfl⟩ := Nat.exists_eq_succ_of_ne_zero hne
    cases L with
    | nil => exact hne (Nat.le_zero.mp hle)
    | cons a L =>
      have ha : a.key = 0 := UInt32.le_zero_iff.mp (hbelow a List.mem_cons_self)
      obtain ⟨hlt, hkey⟩ := hhit ⟨a, List.mem_cons_self, ha⟩
      have hj : j < L.length := Nat.lt_of_succ_lt_succ hlt
      have hmem : (0 : UInt32) ∈ L.map LeafCell.key :=
        List.mem_map.mpr ⟨L[j], List.getElem_mem hj, hkey⟩
      have hpos := List.count_pos_iff.mpr hmem
      rw [List.map_cons, ha, List.count_cons_self] at hcount
      omega

end OrderedLeaf

/-- What a scan is for, after these insertions into a new table: they all return OK, and it gives
every row inserted once, in the order of the keys. -/
def ScansAll (kvs : List (UInt32 × UserSchema)) : Prop :=
  ∃ t L, exec (Table.insertAll kvs) Table.openEmpty = (.ok (), t) ∧ KeysOrdered L ∧
    L.Perm (kvs.map cellOf) ∧
    ∀ fuel, kvs.length ≤ fuel → exec (Table.scan fuel) t = (.ok (L.map LeafCell.val), t)

/-- **When a scan gives all rows** of a table that is still one leaf: if the key 0 is not there more
than once. Repeated keys do no harm by themselves, as a new cell goes next to those with the same
key. But a scan begins at the cell that `FindCell(0)` stops on, and of several cells with this key
that is never the first: a bisection looks at the middle before. -/
theorem scansAll_iff {kvs : List (UInt32 × UserSchema)}
    (hlen : kvs.length ≤ LeafPage.cellsCapacity) :
    ScansAll kvs ↔ (kvs.map Prod.fst).count 0 ≤ 1 := by
  obtain ⟨t, L, hrun, h, hperm⟩ := OrderedLeaf.openEmpty.insertAll kvs (by simpa using hlen)
  rw [List.append_nil] at hperm
  obtain ⟨i, hi, hle, -⟩ := h.findCell 0
  have hcells : L.length = kvs.length := by rw [hperm.length_eq, List.length_map]
  have hcount : (L.map LeafCell.key).count 0 = (kvs.map Prod.fst).count 0 := by
    rw [(hperm.map LeafCell.key).count_eq, List.map_map]
    rfl
  rw [← hcount, ← h.findCell_zero_iff hi]
  constructor
  · rintro ⟨t', L', hrun', -, hperm', hscan⟩
    cases hrun.symm.trans hrun'
    have hsame := (h.exec_scan hi (Nat.le_of_eq hcells)).symm.trans (hscan kvs.length (Nat.le_refl _))
    have hrows : (L.drop i).map LeafCell.val = L'.map LeafCell.val :=
      Except.ok.inj (Prod.mk.inj hsame).1
    have hlength := congrArg List.length hrows
    rw [List.length_map, List.length_map, List.length_drop, hperm'.length_eq, List.length_map,
      hcells] at hlength
    omega
  · rintro rfl
    refine ⟨t, L, hrun, h.ordered, hperm, fun fuel hfuel => ?_⟩
    exact h.exec_scan hi (hcells ▸ hfuel)

/-- Equal keys do no harm as long as they are not 0. -/
theorem scansAll_sevens :
    ScansAll [(7, UserSchema.zero), (7, { UserSchema.zero with id := 1 }), (0, UserSchema.zero)] :=
  (scansAll_iff (by decide)).mpr (by decide)

/-- Two rows with the key 0. The second one is put in front of the first, and the scan starts
behind it. -/
theorem not_scansAll_zeros :
    ¬ ScansAll [(0, { UserSchema.zero with id := 1 }), (0, { UserSchema.zero with id := 2 })] := by
  rintro ⟨t, L, hrun, -, hperm, hscan⟩
  obtain ⟨t', L', hrun', h, hperm'⟩ := OrderedLeaf.openEmpty.insertAll
    [(0, { UserSchema.zero with id := 1 }), (0, { UserSchema.zero with id := 2 })] (by decide)
  cases hrun.symm.trans hrun'
  rw [List.append_nil] at hperm'
  obtain ⟨i, hi, -⟩ := h.findCell 0
  have hne : ¬ i = 0 := by
    rw [h.findCell_zero_iff hi, (hperm'.map LeafCell.key).count_eq]
    decide
  have hsame := (h.exec_scan hi (Nat.le_of_eq hperm'.length_eq)).symm.trans (hscan 2 (Nat.le_refl _))
  have hrows := congrArg List.length (Except.ok.inj (Prod.mk.inj hsame).1)
  rw [List.length_map, List.length_map, List.length_drop, hperm.length_eq, hperm'.length_eq] at hrows
  simp only [List.length_map, List.length_cons, List.length_nil] at hrows
  omega

end CxxLab.DbLab
