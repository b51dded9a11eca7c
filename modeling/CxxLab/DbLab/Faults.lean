import CxxLab.DbLab.Splice

/-!
# Reads that fail, and numbers that are too large

`pager.h` has a status for both. A `read` that fails is `PAGE_LOAD_ERR`, but by then
`OnPageMissing` has put the zeroed page into `pages`, and nothing takes it out: the next `GetPage` finds
it and answers OK, and `Close` writes the zeros over the page in the file. The caller who tries again
is answered wrongly in every case (`not_loadFailureHarmless`), even if the second `read` would fail as
well.

A number from `MAX_PAGES` on is `PAGE_NUM_OVERFLOW`. `GetPage` sets this status and goes on to
`pages[num]`; `FlushPage` returns it in time, but not for `MAX_PAGES` itself, since both compare by
`>`. So the calls that stay within the array are those that never needed the check
(`inBounds_iff_inside`).

An `Insert` asks for pages by numbers that it finds in other pages, and for the next one of the file.
Which these are can be read off the table as it is before (`Table.Needs`); if one of them is too large,
the `Insert` ends behind the array and has no status to return (`Table.Needs.exec_insert`).
-/

set_option autoImplicit false

namespace CxxLab.DbLab

open CxxLab.Lib Exec

/-! ## Single calls -/

/-- `Pager::FlushPage`; `writeOk` is whether the `write` succeeds. -/
def Pager.flushPage (num : Nat) (writeOk : Bool) : Exec Fail Pager Unit := do
  if num > maxPages then
    throw (.status .pageNumOverflow)
  if num ≥ maxPages then
    throw .undefined
  match (← get).pages num with
  | none => return ()
  | some b =>
    unless writeOk do throw (.status .pageFlushErr)
    modify fun s => { s with file := writeAt s.file (num * pageSize % 2 ^ 32) b }

/-- One call on a pager. -/
inductive PagerCall where
  | getPage (n : Nat) (readOk : Bool)
  | flushPage (n : Nat) (writeOk : Bool)
  | close (writeOk : Nat → Bool)
  | reopen (writeOk : Nat → Bool)

/-- A call, with the page it returns if it returns one. -/
def PagerCall.run : PagerCall → Exec Fail Pager (Option Block)
  | getPage n readOk => some <$> Pager.getPage n readOk
  | flushPage n writeOk => do
    Pager.flushPage n writeOk
    return none
  | close writeOk => do
    modify fun s => s.close writeOk
    return none
  | reopen writeOk => do
    modify fun s => s.reopen writeOk
    return none

/-! ## A read that fails -/

/-- What a failed `read` leaves behind: the page is taken for loaded. -/
theorem exec_getPage_loadErr {s : Pager} {n : Nat} (hlt : n < maxPages) (hn : n < s.numPages)
    (hp : s.pages n = none) :
    exec (Pager.getPage n false) s =
      (.error (.status .pageLoadErr), { s with pages := setAt s.pages n (some Block.zero) }) := by
  simp [Pager.getPage, Pager.onPageMissing, exec_bind, Nat.not_le.mpr hlt, hp, hn]

theorem exec_getPage_overflow {n : Nat} (hn : maxPages ≤ n) (s : Pager) (readOk : Bool) :
    exec (Pager.getPage n readOk) s = (.error .undefined, s) := by
  simp [Pager.getPage, hn]

/-- What can be seen of a sequence of calls: the outcome of each, and the file after it. -/
def observed : Pager → List PagerCall → List (Except Fail (Option Block) × List UInt8)
  | _, [] => []
  | s, c :: cs => ((exec c.run s).1, (exec c.run s).2.file) :: observed (exec c.run s).2 cs

/-- The pager after a `GetPage` whose `read` failed. -/
def afterLoadErr (s : Pager) (n : Nat) : Pager := (exec (Pager.getPage n false) s).2

/-- What `PAGE_LOAD_ERR` is for: the call is as good as not made, for any calls of `GetPage`, `Close`
and `Open` that come after it. -/
def LoadFailureHarmless (s : Pager) (n : Nat) : Prop :=
  (exec (Pager.getPage n false) s).1 = .error (.status .pageLoadErr) ∧
    ∀ calls : List PagerCall, (∀ c ∈ calls, ∀ m writeOk, c ≠ .flushPage m writeOk) →
      observed (afterLoadErr s n) calls = observed s calls

theorem afterLoadErr_eq {s : Pager} {n : Nat} (hlt : n < maxPages) (hn : n < s.numPages)
    (hp : s.pages n = none) :
    (afterLoadErr s n).pages n = some Block.zero ∧ (afterLoadErr s n).file = s.file := by
  rw [afterLoadErr, exec_getPage_loadErr hlt hn hp]
  exact ⟨setAt_self _ _ _, rfl⟩

/-- The second time there is no `read`. -/
theorem exec_getPage_afterLoadErr {s : Pager} {n : Nat} (hlt : n < maxPages) (hn : n < s.numPages)
    (hp : s.pages n = none) (readOk : Bool) :
    exec (Pager.getPage n readOk) (afterLoadErr s n) = (.ok Block.zero, afterLoadErr s n) :=
  exec_getPage_cached hlt (afterLoadErr_eq hlt hn hp).1 readOk

/-- One `GetPage` is a sequence of calls. -/
theorem LoadFailureHarmless.getPage {s : Pager} {n : Nat} (h : LoadFailureHarmless s n)
    (readOk : Bool) : (exec (Pager.getPage n readOk) (afterLoadErr s n)).1 =
      (exec (Pager.getPage n readOk) s).1 := by
  have hcalls := h.2 [.getPage n readOk] (by
    intro c hc m writeOk
    rw [List.mem_singleton.mp hc]
    exact PagerCall.noConfusion)
  have hfirst := congrArg (fun l => l.head?.map Prod.fst) hcalls
  simp only [observed, PagerCall.run, exec_map, List.head?_cons, Option.map_some,
    Option.some.injEq] at hfirst
  rcases hx : exec (Pager.getPage n readOk) (afterLoadErr s n) with ⟨x, s₁⟩
  rcases hy : exec (Pager.getPage n readOk) s with ⟨y, s₂⟩
  rw [hx, hy] at hfirst
  cases x <;> cases y <;> simp_all

theorem pages_closeLoop_of_le (writeOk : Nat → Bool) (s : Pager) {n : Nat} : ∀ {m : Nat}, m ≤ n →
    (Pager.closeLoop writeOk m s).pages n = s.pages n := by
  intro m
  induction m with
  | zero => intro _; rfl
  | succ m ih =>
    intro hle
    rw [Pager.closeLoop, Pager.closePage, ← ih (by omega)]
    split
    · rfl
    · split
      · exact setAt_of_ne (by omega)
      · rfl

theorem readAt_closePage (s : Pager) {m n : Nat} (hm : m < maxPages) (writeOk : Bool) :
    readAt (s.closePage m writeOk).file (n * pageSize) =
      if m = n ∧ writeOk then (s.pages n).getD (readAt s.file (n * pageSize))
      else readAt s.file (n * pageSize) := by
  rw [Pager.closePage, offset_mod hm]
  by_cases hsame : m = n
  · subst hsame
    cases hp : s.pages m with
    | none => simp
    | some b => cases writeOk <;> simp [readAt_writeAt_self]
  · rw [if_neg fun h => hsame h.1]
    split
    · rfl
    · split
      · exact readAt_writeAt_of_ne hsame
      · rfl

/-- **`Close` writes the pages in memory to their places**, and nothing else. -/
theorem readAt_closeLoop (writeOk : Nat → Bool) (s : Pager) (n : Nat) : ∀ {m : Nat},
    m ≤ maxPages → readAt (Pager.closeLoop writeOk m s).file (n * pageSize) =
      if n < m ∧ writeOk n then (s.pages n).getD (readAt s.file (n * pageSize))
      else readAt s.file (n * pageSize) := by
  intro m
  induction m with
  | zero =>
    intro _
    rw [if_neg (by omega)]
    rfl
  | succ m ih =>
    intro hm
    rw [Pager.closeLoop, readAt_closePage _ hm, ih (by omega)]
    by_cases hsame : m = n
    · subst hsame
      rw [pages_closeLoop_of_le writeOk s (Nat.le_refl m)]
      simp
    · have hlt : n < m + 1 ↔ n < m := by omega
      simp [hsame, hlt]

/-- **A page whose `read` failed.** Whoever asks for it again is answered OK, also where the second
`read` fails; with zeros, whatever the file has there; and `Close` stores these.

`GetPage` enters the page it has allocated into the array before it reads, and does not take it out
again when reading fails. From then on it is a page like any other. The theorem holds of every state
of a pager and of every page of the file, so there is no condition under which a failed load is
harmless. -/
theorem not_loadFailureHarmless {s : Pager} {n : Nat} (hn : n < s.numPages) (hp : s.pages n = none) :
    ¬ LoadFailureHarmless s n ∧ (n < maxPages →
      ((exec (Pager.getPage n true) (afterLoadErr s n)).1 = .ok (readAt s.file (n * pageSize)) ↔
        readAt s.file (n * pageSize) = Block.zero) ∧
      (readAt ((afterLoadErr s n).close fun _ => true).file (n * pageSize) =
          readAt s.file (n * pageSize) ↔ readAt s.file (n * pageSize) = Block.zero)) := by
  constructor
  · intro h
    by_cases hlt : n < maxPages
    · have hagain := h.getPage false
      rw [exec_getPage_afterLoadErr hlt hn hp, exec_getPage_loadErr hlt hn hp] at hagain
      cases hagain
    · have herr := h.1
      rw [exec_getPage_overflow (Nat.not_lt.mp hlt)] at herr
      cases herr
  · intro hlt
    constructor
    · rw [exec_getPage_afterLoadErr hlt hn hp]
      exact ⟨fun h => (Except.ok.inj h).symm, fun h => by rw [h]⟩
    · obtain ⟨hpage, hfile⟩ := afterLoadErr_eq hlt hn hp
      rw [Pager.close, readAt_closeLoop _ _ _ (Nat.le_refl _), if_pos ⟨hlt, rfl⟩, hpage,
        Option.getD_some]
      exact eq_comm

theorem numPages_sevens : 0 < (Pager.openFile (List.replicate pageSize 7)).numPages := by
  show 0 < (List.replicate pageSize (7 : UInt8)).length % 2 ^ 32 / pageSize
  rw [List.length_replicate]
  decide

/-- A file of one page, with something in it. -/
theorem loadErr_sevens :
    ¬ LoadFailureHarmless (Pager.openFile (List.replicate pageSize 7)) 0 ∧ (0 < maxPages →
      ((exec (Pager.getPage 0 true) (afterLoadErr (Pager.openFile (List.replicate pageSize 7)) 0)).1 =
          .ok (readAt (List.replicate pageSize 7) (0 * pageSize)) ↔
        readAt (List.replicate pageSize 7) (0 * pageSize) = Block.zero) ∧
      (readAt ((afterLoadErr (Pager.openFile (List.replicate pageSize 7)) 0).close
          fun _ => true).file (0 * pageSize) = readAt (List.replicate pageSize 7) (0 * pageSize) ↔
        readAt (List.replicate pageSize 7) (0 * pageSize) = Block.zero)) :=
  not_loadFailureHarmless (s := Pager.openFile (List.replicate pageSize 7)) numPages_sevens rfl

/-- On this file a second `GetPage(0)`, whose `read` succeeds, gives a page of zeros. -/
theorem loadErr_then_zeros :
    ¬ LoadFailureHarmless (Pager.openFile (List.replicate pageSize 7)) 0 := by
  intro h
  have hagain := h.getPage true
  rw [exec_getPage_afterLoadErr (by decide) numPages_sevens rfl,
    exec_getPage_missing (by decide) rfl] at hagain
  simp only [if_pos numPages_sevens, Except.ok.injEq] at hagain
  have hpos : 0 < pageSize := by decide
  have hzero : Block.zero[0] = 0 := Vector.getElem_replicate hpos
  have hseven : (readAt (Pager.openFile (List.replicate pageSize 7)).file (0 * pageSize))[0] = 7 :=
    Vector.getElem_ofFn hpos
  rw [← hagain, hzero] at hseven
  cases hseven

/-! ## Numbers that are too large -/

/-- The `pages` array has `MAX_PAGES` places: no call looks behind them, and `GetPage` answers a
larger number with `PAGE_NUM_OVERFLOW` and changes nothing. -/
def InBounds : Pager → List PagerCall → Prop
  | _, [] => True
  | s, c :: cs =>
    (exec c.run s).1 ≠ .error .undefined ∧
      (∀ n readOk, c = .getPage n readOk → maxPages ≤ n →
        (exec c.run s).1 = .error (.status .pageNumOverflow) ∧
          (exec c.run s).2.numPages = s.numPages ∧ (exec c.run s).2.pages = s.pages) ∧
      InBounds (exec c.run s).2 cs

/-- The calls that stay in bounds. -/
def PagerCall.Inside : PagerCall → Prop
  | .getPage n _ => n < maxPages
  | .flushPage n _ => n ≠ maxPages
  | .close _ => True
  | .reopen _ => True

/-- A `GetPage` with a place in the array finds a page there or a status. -/
theorem getPage_ne_undefined {n : Nat} (hn : n < maxPages) (s : Pager) (readOk : Bool) :
    (exec (Pager.getPage n readOk) s).1 ≠ .error .undefined := by
  cases hp : s.pages n with
  | some b =>
    rw [exec_getPage_cached hn hp]
    exact nofun
  | none =>
    by_cases hlt : n < s.numPages
    · cases readOk with
      | true =>
        rw [exec_getPage_missing hn hp]
        exact nofun
      | false =>
        rw [exec_getPage_loadErr hn hlt hp]
        exact nofun
    · -- A new page: nothing is read.
      simp [Pager.getPage, Pager.onPageMissing, exec_bind, Nat.not_le.mpr hn, hp, hlt,
        Nat.not_lt.mp hlt]

theorem flushPage_ne_undefined_iff (n : Nat) (s : Pager) (writeOk : Bool) :
    (exec (Pager.flushPage n writeOk) s).1 ≠ .error .undefined ↔ n ≠ maxPages := by
  rcases Nat.lt_trichotomy n maxPages with hlt | rfl | hgt
  · have hne : n ≠ maxPages := Nat.ne_of_lt hlt
    cases hp : s.pages n with
    | none => simp [Pager.flushPage, exec_bind, hp, Nat.not_lt.mpr (Nat.le_of_lt hlt),
        Nat.not_le.mpr hlt, hne]
    | some b =>
      cases writeOk <;>
        simp [Pager.flushPage, exec_bind, hp, Nat.not_lt.mpr (Nat.le_of_lt hlt),
          Nat.not_le.mpr hlt, hne]
  · simp [Pager.flushPage]
  · simp [Pager.flushPage, hgt, Nat.ne_of_gt hgt]

theorem PagerCall.inside_iff (s : Pager) (c : PagerCall) :
    c.Inside ↔ (exec c.run s).1 ≠ .error .undefined ∧
      ∀ n readOk, c = .getPage n readOk → maxPages ≤ n →
        (exec c.run s).1 = .error (.status .pageNumOverflow) ∧
          (exec c.run s).2.numPages = s.numPages ∧ (exec c.run s).2.pages = s.pages := by
  cases c with
  | getPage n readOk =>
    have hrun : (exec (PagerCall.getPage n readOk).run s).1 = .error .undefined ↔
        (exec (Pager.getPage n readOk) s).1 = .error .undefined := by
      rw [PagerCall.run, map_eq_pure_bind]
      exact exec_bind_pure_error some _ s _
    rw [ne_eq, hrun]
    constructor
    · intro hlt
      refine ⟨getPage_ne_undefined hlt s readOk, fun m r hc hm => ?_⟩
      cases hc
      exact absurd hlt (Nat.not_lt.mpr hm)
    · rintro ⟨hok, -⟩
      by_contra hge
      exact hok (by rw [exec_getPage_overflow (Nat.not_lt.mp hge)])
  | flushPage n writeOk =>
    have hrun : (exec (PagerCall.flushPage n writeOk).run s).1 = .error .undefined ↔
        (exec (Pager.flushPage n writeOk) s).1 = .error .undefined :=
      exec_bind_pure_error (fun _ => none) _ s _
    rw [ne_eq, hrun, ← ne_eq, flushPage_ne_undefined_iff]
    exact ⟨fun h => ⟨h, nofun⟩, fun h => h.1⟩
  | close writeOk => exact ⟨fun _ => ⟨nofun, nofun⟩, fun _ => trivial⟩
  | reopen writeOk => exact ⟨fun _ => ⟨nofun, nofun⟩, fun _ => trivial⟩

theorem inBounds_iff : ∀ (calls : List PagerCall) (s : Pager),
    InBounds s calls ↔ ∀ c ∈ calls, c.Inside := by
  intro calls
  induction calls with
  | nil => intro s; simp [InBounds]
  | cons c cs ih =>
    intro s
    rw [InBounds, ih, ← and_assoc, ← PagerCall.inside_iff, List.forall_mem_cons]

/-! ## An `Insert` that needs such a page -/

/-- The child to which `InternalPageFind` goes on from an internal page. -/
def Page.childFor (p : Page) (key : UInt32) : Option Nat :=
  if p.type = .internal then (p.internalFindCell key).bind fun i => (p.getChildPageNum i).toOption
  else none

/-- The pages that a search looks at: this one and then child after child, through at most so many internal
pages. -/
def wayFrom (pages : Nat → Page) (key : UInt32) : Nat → Nat → List Nat
  | 0, n => [n]
  | fuel + 1, n => n :: ((pages n).childFor key).elim [] (wayFrom pages key fuel)

namespace Table

/-- The pages that `Find` looks at. -/
def way (t : Table) (key : UInt32) : List Nat :=
  wayFrom t.pager.pages key (t.pager.numPages + 1) t.rootPageNum

/-- The leaf on this page is where `Find` ends, and it is full. -/
structure FindsFull (t : Table) (key : UInt32) (l : Nat) : Prop where
  way : l ∈ t.way key
  type : (t.pager.pages l).type = .leaf
  found : ((t.pager.pages l).leafFindCell key).isSome
  full : LeafPage.cellsCapacity ≤ (t.pager.pages l).num

/-- **The pages that `Insert` needs**, read off the table as it is before. There are those that `Find` looks
at. If the leaf it ends on is full, the next page of the file is to be the new leaf; if that leaf is the root,
the page behind that is to be its lower half; and if it is not, there are its parent and, if the parent is an
internal page that has keys and room for one more, the parent's right child. -/
inductive Needs (t : Table) (key : UInt32) : Nat → Prop where
  | way {n : Nat} (h : n ∈ t.way key) : Needs t key n
  | newLeaf {l : Nat} (h : t.FindsFull key l) : Needs t key t.pager.numPages
  | leftChild {l : Nat} (h : t.FindsFull key l) (hroot : (t.pager.pages l).isRoot = true) :
      Needs t key (t.pager.numPages + 1)
  | parent {l : Nat} (h : t.FindsFull key l) (hroot : (t.pager.pages l).isRoot = false) :
      Needs t key (t.pager.pages l).parent
  | rightChild {l : Nat} (h : t.FindsFull key l) (hroot : (t.pager.pages l).isRoot = false)
      (htype : (t.pager.pages (t.pager.pages l).parent).type = .internal)
      (hkeys : 0 < (t.pager.pages (t.pager.pages l).parent).num)
      (hroom : (t.pager.pages (t.pager.pages l).parent).num < InternalPage.maxCells) :
      Needs t key (t.pager.pages (t.pager.pages l).parent).link

/-- Pages that are not in use are what `calloc` gives. -/
def Fresh (t : Table) : Prop := ∀ n, t.pager.numPages ≤ n → t.pager.pages n = Page.zero

variable {t : Table} {key : UInt32} {l n : Nat}

theorem Fresh.inUse (h : t.Fresh) (htype : (t.pager.pages n).type ≠ .none) : n < t.pager.numPages := by
  by_contra hge
  rw [h n (Nat.not_lt.mp hge)] at htype
  exact htype rfl

/-! ### The way down -/

theorem mem_tail_wayFrom {pages : Nat → Page} {fuel m : Nat}
    (h : m ∈ (wayFrom pages key fuel n).tail) : ∃ i child fuel', fuel = fuel' + 1 ∧
      (pages n).type = .internal ∧ (pages n).internalFindCell key = some i ∧
      (pages n).getChildPageNum i = .ok child ∧ m ∈ wayFrom pages key fuel' child := by
  cases fuel with
  | zero => cases h
  | succ fuel =>
    rw [wayFrom, List.tail_cons] at h
    cases hchild : (pages n).childFor key with
    | none => rw [hchild] at h; cases h
    | some child =>
      rw [hchild] at h
      obtain ⟨htype, hfind⟩ := Option.ite_none_right_eq_some.mp hchild
      obtain ⟨i, hi, hnum⟩ := Option.bind_eq_some_iff.mp hfind
      refine ⟨i, child, fuel, rfl, htype, hi, ?_, h⟩
      cases hget : (pages n).getChildPageNum i with
      | error e => rw [hget] at hnum; cases hnum
      | ok c => rw [hget] at hnum; cases hnum; rfl

/-- Only an internal page has more of the way behind it. -/
theorem type_of_mem_tail {pages : Nat → Page} {fuel m : Nat} (h : m ∈ (wayFrom pages key fuel n).tail) :
    (pages n).type = .internal := by
  obtain ⟨-, -, -, -, htype, -⟩ := mem_tail_wayFrom h
  exact htype

theorem wayFrom_eq_cons (pages : Nat → Page) (fuel : Nat) :
    wayFrom pages key fuel n = n :: (wayFrom pages key fuel n).tail := by
  cases fuel <;> rfl

theorem exec_getPage_below (hmax : n < maxPages) :
    exec (getPage n) t = (.ok (t.pager.pages n), { t with pager := t.pager.getPage n }) := by
  simp [getPage, exec_bind, PageArray.getPage, Nat.not_le.mpr hmax]

/-- A search that comes to a page with too large a number ends there. -/
theorem exec_internalPageFind_overflow {pages : Nat → Page} : ∀ (fuel : Nat) {n m : Nat} {t : Table},
    t.pager.pages = pages → m ∈ (wayFrom pages key fuel n).tail → maxPages ≤ m →
    ∃ t', exec (internalPageFind key fuel (pages n)) t = (.error .undefined, t') := by
  intro fuel
  induction fuel with
  | zero => intro n m t _ hm; cases hm
  | succ fuel ih =>
    intro n m t hpages hm hmax
    obtain ⟨i, child, _, ⟨⟩, -, hi, hchild, hm⟩ := mem_tail_wayFrom hm
    rw [internalPageFind, hi, exec_bind_ok (exec_found_some i t), hchild, exec_bind_ok (exec_check_ok child t)]
    by_cases hlt : child < maxPages
    · rw [exec_bind_ok (exec_getPage_below hlt), hpages]
      rw [wayFrom_eq_cons] at hm
      rcases List.mem_cons.mp hm with rfl | hm
      · exact absurd hlt (Nat.not_lt.mpr hmax)
      · -- There is more of the way, so the child is an internal page.
        rw [type_of_mem_tail hm]
        exact ih (t := { t with pager := t.pager.getPage child }) hpages hm hmax
    · exact ⟨t, by rw [exec_bind, exec_getPage_overflow (Nat.not_lt.mp hlt)]⟩

/-- A search that comes to a leaf gives its place there, and changes nothing. -/
theorem exec_internalPageFind_leaf (hfresh : t.Fresh) {c : Nat} (htype : (t.pager.pages l).type = .leaf)
    (hfind : (t.pager.pages l).leafFindCell key = some c) : ∀ (fuel : Nat) {n : Nat},
    l ∈ (wayFrom t.pager.pages key fuel n).tail →
    (∀ m ∈ (wayFrom t.pager.pages key fuel n).tail, m < maxPages) →
    exec (internalPageFind key fuel (t.pager.pages n)) t = (.ok ⟨l, c, false⟩, t) := by
  intro fuel
  induction fuel with
  | zero => intro n hl; cases hl
  | succ fuel ih =>
    intro n hl hbelow
    obtain ⟨i, child, _, ⟨⟩, hint, hi, hchild, hl⟩ := mem_tail_wayFrom hl
    have htail : (wayFrom t.pager.pages key (fuel + 1) n).tail = wayFrom t.pager.pages key fuel child := by
      rw [wayFrom, Page.childFor, if_pos hint, hi, Option.bind_some, hchild]
      rfl
    rw [htail, wayFrom_eq_cons, List.forall_mem_cons] at hbelow
    obtain ⟨hlt, hbelow⟩ := hbelow
    rw [internalPageFind, hi, exec_bind_ok (exec_found_some i t), hchild, exec_bind_ok (exec_check_ok child t)]
    rw [wayFrom_eq_cons] at hl
    rcases List.mem_cons.mp hl with rfl | hl
    · rw [exec_bind_ok (exec_getPage (hfresh.inUse (by rw [htype]; decide)) hlt), htype]
      show exec (leafPageFind l _ key) t = _
      rw [leafPageFind, hfind, exec_bind_ok (exec_found_some c t), exec_pure]
    · have hchildInt := type_of_mem_tail hl
      rw [exec_bind_ok (exec_getPage (hfresh.inUse (by rw [hchildInt]; decide)) hlt), hchildInt]
      exact ih hl hbelow

theorem exec_find_overflow (h : n ∈ t.way key) (hmax : maxPages ≤ n) :
    ∃ t', exec (find key) t = (.error .undefined, t') := by
  rw [way, wayFrom_eq_cons] at h
  rw [find, exec_bind_ok (exec_get t)]
  by_cases hroot : t.rootPageNum < maxPages
  · rw [exec_bind_ok (exec_getPage_below hroot)]
    rcases List.mem_cons.mp h with rfl | h
    · exact absurd hroot (Nat.not_lt.mpr hmax)
    obtain ⟨t', hwalk⟩ := @exec_internalPageFind_overflow key t.pager.pages
      (t.pager.numPages + 1) _ _ { t with pager := t.pager.getPage t.rootPageNum } rfl h hmax
    refine ⟨t', ?_⟩
    simp only [type_of_mem_tail h]
    -- The handler turns a status into a null pointer, and this is none.
    rw [exec_tryCatch, exec_map, hwalk]
    rfl
  · exact ⟨t, by rw [exec_bind, exec_getPage_overflow (Nat.not_lt.mp hroot)]⟩

/-- `InsertInternal` looks at the parent's right child. -/
theorem exec_insertInternal_overflow {child : Nat} (hchild : (t.pager.pages child).type = .leaf)
    (hnum : (t.pager.pages child).num ≠ 0) (hroom : (t.pager.pages n).num < InternalPage.maxCells)
    (hmax : maxPages ≤ (t.pager.pages n).link) :
    (exec (insertInternal n child) t).1 = .error .undefined := by
  generalize hp : t.pager.pages n = p at *
  have hkey : (t.pager.pages child).getMaxKey =
      .ok ((t.pager.pages child).leafCells ((t.pager.pages child).num - 1)).key := by
    rw [Page.getMaxKey, hchild]
    exact if_neg hnum
  -- The search over one cell too many ends somewhere.
  obtain ⟨index, hindex, -⟩ := Page.internalFindCell_isSome (p := { p with num := p.num + 1 })
    (UInt32.ofNat p.num) (by show p.num + 1 ≤ _; omega)
  simp only [insertInternal, exec_bind, exec_page, hp, hkey, exec_check_ok, exec_setPage, pages_store,
    setAt_self, hindex, exec_found_some, ge_iff_le, Nat.not_le.mpr hroom, if_false,
    exec_getPage_overflow hmax]

/-- The table when the full leaf on page `l` has been dealt out over its page and the next one of the file. What
comes after that looks at the headers of the two only. -/
structure SplitFrom (t : Table) (l : Nat) (t' : Table) : Prop where
  rootPageNum : t'.rootPageNum = t.rootPageNum
  numPages : t'.pager.numPages = t.pager.numPages + 1
  isRoot : (t'.pager.pages l).isRoot = (t.pager.pages l).isRoot
  parent : (t'.pager.pages l).parent = (t.pager.pages l).parent
  newType : (t'.pager.pages t.pager.numPages).type = .leaf
  newNum : (t'.pager.pages t.pager.numPages).num = LeafPage.rightSplitCount
  others : ∀ n, n ≠ l → n ≠ t.pager.numPages → t'.pager.pages n = t.pager.pages n

namespace FindsFull

theorem exec_find (h : t.FindsFull key l) (hfresh : t.Fresh) (hbelow : ∀ m ∈ t.way key, m < maxPages) :
    ∃ c, exec (find key) t = (.ok (some ⟨l, c, false⟩), t) := by
  obtain ⟨c, hc⟩ := Option.isSome_iff_exists.mp h.found
  refine ⟨c, ?_⟩
  have hl := h.way
  rw [Table.way, wayFrom_eq_cons] at hl hbelow
  obtain ⟨hroot, hbelow⟩ := List.forall_mem_cons.mp hbelow
  rw [find, exec_bind_ok (exec_get t)]
  rcases List.mem_cons.mp hl with rfl | hl
  · rw [exec_bind_ok (exec_getPage (hfresh.inUse (by rw [h.type]; decide)) hroot)]
    simp only [h.type, exec_map, leafPageFind, hc, exec_bind_ok (exec_found_some c t), exec_pure]
  · have hint := type_of_mem_tail hl
    rw [exec_bind_ok (exec_getPage (hfresh.inUse (by rw [hint]; decide)) hroot)]
    simp only [hint]
    refine exec_tryCatch_ok ?_
    rw [exec_map, exec_internalPageFind_leaf hfresh h.type hc _ hl hbelow]

/-- The full leaf is dealt out, if there is a next page. -/
theorem exec_splitLeaf (h : t.FindsFull key l) (hfresh : t.Fresh) (hmax : t.pager.numPages < maxPages)
    (c : Nat) (row : UserSchema) :
    ∃ oldMax t', exec (splitLeaf ⟨l, c, false⟩ key row) t = (.ok (t.pager.numPages, oldMax), t') ∧
      SplitFrom t l t' := by
  have hne : l ≠ t.pager.numPages := Nat.ne_of_lt (hfresh.inUse (by rw [h.type]; decide))
  have hzero : t.pager.pages t.pager.numPages = Page.zero := hfresh _ (Nat.le_refl _)
  have hleaf : exec (getLeafPage t.pager.numPages) t =
      (.ok Page.zero.leafReset, t.grow.store t.pager.numPages Page.zero.leafReset) := by
    rw [getLeafPage, exec_bind_ok (exec_getPage_new hmax), hzero]
    rfl
  have hkey : (t.pager.pages l).leafGetMaxKey =
      .ok ((t.pager.pages l).leafCells ((t.pager.pages l).num - 1)).key := by
    have hfull := h.full
    rw [cellsCapacity_eq] at hfull
    rw [Page.leafGetMaxKey, if_neg (by omega)]
  obtain ⟨p, hp⟩ : ∃ p, t.pager.pages l = p := ⟨_, rfl⟩
  rw [hp] at hkey
  obtain ⟨q, r, hloop, hq, hr, -, -⟩ := splitLoop_eq c key row p.leafCells LeafPage.cellsCapacity
    { p with link := t.pager.numPages } { Page.zero.leafReset with parent := p.parent, link := p.link }
    (Nat.le_refl _) fun _ _ => rfl
  have hfrom : SplitFrom t l ((t.grow.store l { q with num := LeafPage.leftSplitCount }).store
      t.pager.numPages { r with num := LeafPage.rightSplitCount }) := by
    have hnew : r.type = .leaf := hr.type
    constructor
    case others =>
      intro n hl hn
      rw [pages_store, setAt_of_ne hn, pages_store, setAt_of_ne hl, pages_grow]
    all_goals simp [setAt_of_ne hne, hp, hq.isRoot, hq.parent, hnew]
  refine ⟨(p.leafCells (p.num - 1)).key, _, ?_, hfrom⟩
  rw [splitLeaf, exec_bind_ok (exec_get t), exec_bind_ok hleaf]
  simp only [exec_bind, exec_page, pages_store, pages_grow, setAt_of_ne hne, hp, hkey, exec_check_ok,
    exec_setPage, setAt_self, setAt_of_ne hne.symm, hloop, exec_pure]
  rw [store_store, store_comm _ _ _ hne.symm, store_comm _ _ _ hne.symm, store_store, store_store]

/-- An `Insert` that finds a full leaf splits it. -/
theorem exec_insert (h : t.FindsFull key l) (hfresh : t.Fresh) (hbelow : ∀ m ∈ t.way key, m < maxPages)
    (row : UserSchema) : ∃ c, exec (insert key row) t = exec (doInsertAndSplit ⟨l, c, false⟩ key row) t := by
  obtain ⟨c, hfind⟩ := h.exec_find hfresh hbelow
  have hget := exec_getLeafPage (hfresh.inUse (by rw [h.type]; decide)) (hbelow l h.way) h.type
  refine ⟨c, ?_⟩
  rw [insert, exec_bind_ok hfind]
  show exec (executeInsert ⟨l, c, false⟩ key row) t = _
  rw [executeInsert, exec_bind_ok hget, if_pos h.full]

theorem exec_insert_newLeaf (h : t.FindsFull key l) (hfresh : t.Fresh)
    (hbelow : ∀ m ∈ t.way key, m < maxPages) (row : UserSchema) (hmax : maxPages ≤ t.pager.numPages) :
    (exec (insert key row) t).1 = .error .undefined := by
  obtain ⟨c, hrun⟩ := h.exec_insert hfresh hbelow row
  rw [hrun, doInsertAndSplit, exec_bind, splitLeaf, exec_bind_ok (exec_get t), exec_bind,
    exec_getLeafPage_overflow hmax]

variable {q r : Page} {oldMax : UInt32}

/-- The root leaf needs a page for its lower half, too. -/
theorem exec_insert_leftChild (h : t.FindsFull key l) (hfresh : t.Fresh)
    (hbelow : ∀ m ∈ t.way key, m < maxPages) (row : UserSchema)
    (hroot : (t.pager.pages l).isRoot = true) (hlow : t.pager.numPages < maxPages)
    (hmax : maxPages ≤ t.pager.numPages + 1) : (exec (insert key row) t).1 = .error .undefined := by
  obtain ⟨c, hrun⟩ := h.exec_insert hfresh hbelow row
  obtain ⟨oldMax, t₁, hsplit, hfrom⟩ := h.exec_splitLeaf hfresh hlow c row
  have hrootNum : t.rootPageNum < maxPages :=
    hbelow _ (by rw [Table.way, wayFrom_eq_cons]; exact List.mem_cons_self)
  have hnum : maxPages ≤ t₁.pager.numPages := by rw [hfrom.numPages]; exact hmax
  rw [hrun, doInsertAndSplit, exec_bind_ok hsplit]
  dsimp only
  rw [exec_bind_ok (exec_page l t₁), hfrom.isRoot, hroot, if_pos rfl, splitRoot,
    exec_bind_ok (exec_get t₁), exec_bind_ok (exec_get t₁), hfrom.rootPageNum,
    exec_bind_ok (exec_getPage_below hrootNum), exec_bind, exec_getPage_overflow hnum]

/-- The parent of another leaf. -/
theorem exec_insert_parent (h : t.FindsFull key l) (hfresh : t.Fresh)
    (hbelow : ∀ m ∈ t.way key, m < maxPages) (row : UserSchema)
    (hroot : (t.pager.pages l).isRoot = false) (hlow : t.pager.numPages < maxPages)
    (hmax : maxPages ≤ (t.pager.pages l).parent) : (exec (insert key row) t).1 = .error .undefined := by
  obtain ⟨c, hrun⟩ := h.exec_insert hfresh hbelow row
  obtain ⟨oldMax, t₁, hsplit, hfrom⟩ := h.exec_splitLeaf hfresh hlow c row
  rw [hrun, doInsertAndSplit, exec_bind_ok hsplit]
  dsimp only
  rw [exec_bind_ok (exec_page l t₁), hfrom.isRoot, hroot, if_neg Bool.false_ne_true, hfrom.parent,
    exec_bind, exec_getPage_overflow hmax]

/-- And the right child of that parent. -/
theorem exec_insert_rightChild (h : t.FindsFull key l) (hfresh : t.Fresh)
    (hbelow : ∀ m ∈ t.way key, m < maxPages) (row : UserSchema)
    (hroot : (t.pager.pages l).isRoot = false) (hlow : t.pager.numPages < maxPages)
    (hparent : (t.pager.pages l).parent < maxPages) {p : Page}
    (hp : t.pager.pages (t.pager.pages l).parent = p) (htype : p.type = .internal) (hkeys : 0 < p.num)
    (hroom : p.num < InternalPage.maxCells) (hmax : maxPages ≤ p.link) :
    (exec (insert key row) t).1 = .error .undefined := by
  obtain ⟨c, hrun⟩ := h.exec_insert hfresh hbelow row
  obtain ⟨oldMax, t₁, hsplit, hfrom⟩ := h.exec_splitLeaf hfresh hlow c row
  have hcurrParent := hfrom.parent
  generalize (t.pager.pages l).parent = n at *
  have hnn : n ≠ t.pager.numPages := Nat.ne_of_lt (hfresh.inUse (by rw [hp, htype]; decide))
  have hnl : n ≠ l := by
    rintro rfl
    have hleaf := h.type
    rw [hp, htype] at hleaf
    cases hleaf
  have hpage : t₁.pager.pages n = p := (hfrom.others n hnl hnn).trans hp
  have hget : exec (getPage n) t₁ = (.ok p, { t₁ with pager := t₁.pager.getPage n }) := by
    rw [exec_getPage_below hparent, hpage]
  have hkey : p.getMaxKey = .ok (p.slots (p.num - 1)).key := by
    rw [Page.getMaxKey, htype]
    exact if_neg (Nat.ne_of_gt hkeys)
  obtain ⟨i, hi, hile⟩ := Page.internalFindCell_isSome (p := p) oldMax (by omega)
  have hslot : Page.slotOk i = true := (Page.slotOk_iff _).mpr (by omega)
  rw [hrun, doInsertAndSplit, exec_bind_ok hsplit]
  simp only [exec_bind, exec_page, hfrom.isRoot, hroot, hcurrParent, hget, hkey, exec_check_ok, htype, hi,
    exec_found_some, Page.setKey, hslot, if_true, exec_setPage, Bool.false_eq_true, if_false]
  refine exec_insertInternal_overflow ?_ ?_ ?_ ?_
  · rw [pages_store, setAt_of_ne hnn.symm]
    exact hfrom.newType
  · rw [pages_store, setAt_of_ne hnn.symm]
    exact hfrom.newNum.trans_ne (by decide)
  · rw [pages_store, setAt_self]
    exact hroom
  · rw [pages_store, setAt_self]
    exact hmax

end FindsFull

/-- **An `Insert` that needs a page behind the array has no status to return.** -/
theorem Needs.exec_insert (h : t.Needs key n) (hfresh : t.Fresh) (hmax : maxPages ≤ n) (row : UserSchema) :
    (exec (insert key row) t).1 = .error .undefined := by
  by_cases hway : ∃ m ∈ t.way key, maxPages ≤ m
  · obtain ⟨m, hm, hle⟩ := hway
    obtain ⟨t', hfind⟩ := exec_find_overflow hm hle
    rw [insert, exec_bind, hfind]
  have hbelow : ∀ m ∈ t.way key, m < maxPages := fun m hm => by
    by_contra hge
    exact hway ⟨m, hm, Nat.not_lt.mp hge⟩
  -- Whatever else is needed comes after the new leaf.
  have hlow : ∀ {l}, t.FindsFull key l → (t.pager.numPages < maxPages →
      (exec (insert key row) t).1 = .error .undefined) →
      (exec (insert key row) t).1 = .error .undefined := fun hfull hlater =>
    (Nat.lt_or_ge t.pager.numPages maxPages).elim hlater (hfull.exec_insert_newLeaf hfresh hbelow row)
  cases h with
  | way h => exact absurd (hbelow n h) (Nat.not_lt.mpr hmax)
  | newLeaf h => exact h.exec_insert_newLeaf hfresh hbelow row hmax
  | leftChild h hroot =>
    exact hlow h fun hlt => h.exec_insert_leftChild hfresh hbelow row hroot hlt hmax
  | parent h hroot => exact hlow h fun hlt => h.exec_insert_parent hfresh hbelow row hroot hlt hmax
  | @rightChild l h hroot htype hkeys hroom =>
    refine hlow h fun hlt => ?_
    by_cases hparent : (t.pager.pages l).parent < maxPages
    · exact h.exec_insert_rightChild hfresh hbelow row hroot hlt hparent rfl htype hkeys hroom hmax
    · exact h.exec_insert_parent hfresh hbelow row hroot hlt (Nat.not_lt.mp hparent)

end Table

/-- An `Insert` that needs a page with too large a number returns a status. -/
def OverflowReported (t : Table) (key : UInt32) (row : UserSchema) : Prop :=
  ∀ n, maxPages ≤ n → t.Needs key n → ∃ st, (exec (Table.insert key row) t).1 = .error (.status st)

theorem overflowReported_iff {t : Table} (hfresh : t.Fresh) (key : UInt32) (row : UserSchema) :
    OverflowReported t key row ↔ ∀ n, t.Needs key n → n < maxPages := by
  constructor
  · intro h n hneeds
    by_contra hge
    obtain ⟨st, hst⟩ := h n (Nat.not_lt.mp hge) hneeds
    rw [hneeds.exec_insert hfresh (Nat.not_lt.mp hge) row] at hst
    cases hst
  · intro h n hn hneeds
    exact absurd (h n hneeds) (Nat.not_lt.mpr hn)

/-- **Which calls stay in bounds.** On a pager, in any state and in any sequence: `GetPage` below `MAX_PAGES`,
`FlushPage` anywhere but there, and `Close`. And an `Insert` keeps its part if and only if all the pages that
it needs have a number below `MAX_PAGES`. -/
theorem inBounds_iff_inside (s : Pager) (calls : List PagerCall) {t : Table} (hfresh : t.Fresh)
    (key : UInt32) (row : UserSchema) :
    (InBounds s calls ↔ ∀ c ∈ calls, c.Inside) ∧
      (OverflowReported t key row ↔ ∀ n, t.Needs key n → n < maxPages) :=
  ⟨inBounds_iff calls s, overflowReported_iff hfresh key row⟩

/-- The table whose middle leaf is full needs five pages for the key 87. -/
theorem needs_between : ∀ n, tableBetween.Needs 87 n → n < maxPages := by
  have hway : ∀ l ∈ tableBetween.way 87, l < maxPages ∧ (tableBetween.pager.pages l).parent < maxPages ∧
      (tableBetween.pager.pages (tableBetween.pager.pages l).parent).link < maxPages := by
    decide +kernel
  have hnum : tableBetween.pager.numPages = 4 := rfl
  intro n h
  cases h with
  | way h => exact (hway n h).1
  | newLeaf _ => rw [hnum]; decide
  | leftChild _ _ => rw [hnum]; decide
  | parent h _ => exact (hway _ h.way).2.1
  | rightChild h _ _ _ _ => exact (hway _ h.way).2.2

/-- Three calls with numbers up to the last page, and this `Insert`. -/
theorem inBounds_between :
    InBounds (Pager.openFile []) [.getPage (maxPages - 1) true, .flushPage (maxPages + 1) true,
      .close fun _ => true] ∧
    OverflowReported tableBetween 87 { UserSchema.zero with id := 87 } := by
  obtain ⟨hcalls, hinsert⟩ := inBounds_iff_inside (Pager.openFile [])
    [.getPage (maxPages - 1) true, .flushPage (maxPages + 1) true, .close fun _ => true]
    insertable_between.fresh 87 { UserSchema.zero with id := 87 }
  refine ⟨hcalls.mpr ?_, hinsert.mpr needs_between⟩
  simp only [List.forall_mem_cons]
  exact ⟨Nat.sub_lt (by decide) (by decide), Nat.succ_ne_self _, trivial, nofun⟩

/-- A table whose root is a full leaf, over a file that has no page left. -/
def fullFile : Table where
  rootPageNum := 0
  pager :=
    { numPages := maxPages
      pages := setAt (fun _ => Page.zero) 0
        { Page.zero.leafReset with isRoot := true, num := LeafPage.cellsCapacity } }

/-- The boundary value itself; and the `Insert` that needs this page ends behind the array. -/
theorem not_inBounds_maxPages : ¬ InBounds (Pager.openFile []) [.getPage maxPages true] ∧
    ¬ OverflowReported fullFile 5 { UserSchema.zero with id := 5 } := by
  constructor
  · intro h
    exact h.1 (by rw [PagerCall.run, exec_map, exec_getPage_overflow (Nat.le_refl _)])
  · have hfull : fullFile.FindsFull 5 0 :=
      ⟨List.mem_cons_self, rfl, by decide +kernel, Nat.le_refl _⟩
    have hfresh : fullFile.Fresh := by
      intro n hn
      have hpos : 0 < n := Nat.lt_of_lt_of_le (by decide : 0 < maxPages) hn
      exact setAt_of_ne (f := fun _ => Page.zero) (Nat.ne_of_gt hpos)
    rw [overflowReported_iff hfresh]
    exact fun h => absurd (h _ (.newLeaf hfull)) (Nat.lt_irrefl _)

end CxxLab.DbLab
