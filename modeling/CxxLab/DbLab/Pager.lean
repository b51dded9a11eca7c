import CxxLab.Lib.Exec
import Mathlib.Algebra.Ring.Nat
import Mathlib.Data.List.GetD

/-!
# `db_lab/pager.h` — the page cache over a file

A `Pager` hands out pages by number. A page asked for is either in memory already, or is
allocated zeroed and, when the file is believed to have it, read in; `Close` writes every page
in memory back and drops it. The page count is not stored anywhere: `Open` recomputes it from
the length of the file, and between two opens it is one more than the largest number asked for.

What all of this is *for* is an array of pages. That reading is `PageArray`, and it is what
`Table` is modelled over. The second half of the file is the proof that the pager is one:
`Refines` relates a pager to an array, every operation preserves it (`Refines.step`), and so a
whole session over an empty file, closed and reopened at will, is indistinguishable from the
array (`session_getPage_pageNums`).
-/

set_option autoImplicit false

namespace CxxLab.DbLab

open CxxLab.Lib Exec

/-! ## Status codes -/

/-- `StatusType` of `status.h`, less the codes only the command loop uses. -/
inductive StatusType where
  | pageInvalid
  | pageNumOverflow
  | pageLoadErr
  | pageFlushErr
  | cursorEndOfFile
  | cellOverflow
  | childOverflow
  | emptyKey
  | keyOverflow
  deriving DecidableEq, Repr

/-- Every way a call can end other than with `Status` OK. -/
inductive Fail where
  /-- It returns this status. -/
  | status (type : StatusType)
  /-- An `assert` fails. -/
  | assertion
  /-- It reads outside an array or reads a variable that was never set. -/
  | undefined
  /-- The step budget of the model ran out. -/
  | outOfFuel
  deriving DecidableEq, Repr

/-! ## The array of pages -/

/-- A numbered array of pages and the number of pages in use. Pages not in use are blank. -/
structure PageArray (P : Type) where
  numPages : Nat
  pages : Nat → P

/-- Asking for a page brings it, and every page before it, into use. -/
def PageArray.getPage {P : Type} (a : PageArray P) (n : Nat) : PageArray P :=
  { a with numPages := max a.numPages (n + 1) }

/-- Store into one place of an array. -/
def setAt {α : Type} (f : Nat → α) (i : Nat) (a : α) : Nat → α := fun j => if j = i then a else f j

@[simp] theorem setAt_self {α : Type} (f : Nat → α) (i : Nat) (a : α) : setAt f i a i = a := by
  simp [setAt]

theorem setAt_of_ne {α : Type} {f : Nat → α} {i j : Nat} {a : α} (h : j ≠ i) :
    setAt f i a j = f j := by
  simp [setAt, h]

@[simp] theorem setAt_setAt {α : Type} (f : Nat → α) (i : Nat) (a b : α) :
    setAt (setAt f i a) i b = setAt f i b := by
  funext j
  simp only [setAt]
  split <;> rfl

def PageArray.overwrite {P : Type} (a : PageArray P) (n : Nat) (p : P) : PageArray P :=
  { a with pages := setAt a.pages n p }

/-! ## The pager -/

/-- `Pager::PAGE_SIZE`. -/
def pageSize : Nat := 4 * 1024

/-- `Pager::MAX_PAGES`. -/
def maxPages : Nat := 1024 * 1024 * 1024 / pageSize

/-- The bytes of one page. -/
abbrev Block := Vector UInt8 pageSize

/-- What `calloc` gives. -/
def Block.zero : Block := Vector.replicate pageSize 0

structure Pager where
  /-- The contents of the file behind `file_descriptor`. -/
  file : List UInt8
  fileLength : Nat
  numPages : Nat
  /-- The `pages` array; a null pointer is `none`. -/
  pages : Nat → Option Block

/-- `lseek` and `read` into a zeroed page: what lies past the end of the file stays zero. -/
def readAt (file : List UInt8) (off : Nat) : Block :=
  Vector.ofFn fun i : Fin pageSize => file.getD (off + i) 0

/-- `lseek` and `write`: a gap left behind the old end of the file reads as zero. -/
def writeAt (file : List UInt8) (off : Nat) (b : Block) : List UInt8 :=
  file.take off ++ List.replicate (off - file.length) 0 ++ b.toList ++ file.drop (off + pageSize)

namespace Pager

/-- `Pager::Open`. `file_length` is a `uint32_t`. -/
def openFile (file : List UInt8) : Pager :=
  let fileLength := file.length % 2 ^ 32
  { file := file, fileLength := fileLength, numPages := fileLength / pageSize,
    pages := fun _ => none }

/-- `Pager::OnPageMissing`; `readOk` is whether the `read` succeeds. The offset is a product of
two `uint32_t`s. -/
def onPageMissing (num : Nat) (readOk : Bool) : Exec Fail Pager Unit := do
  modify fun s => { s with pages := setAt s.pages num (some Block.zero) }
  if num < (← get).numPages then
    if readOk then
      modify fun s =>
        { s with pages := setAt s.pages num (some (readAt s.file (num * pageSize % 2 ^ 32))) }
    else
      throw (.status .pageLoadErr)
  if num ≥ (← get).numPages then
    modify fun s => { s with numPages := num + 1 }

/-- `Pager::GetPage`. A number above `MAX_PAGES` only sets a status that is tested later:
`pages[num]` is read first, and there is no such place. -/
def getPage (num : Nat) (readOk : Bool) : Exec Fail Pager Block := do
  if num ≥ maxPages then
    throw .undefined
  if ((← get).pages num).isNone then
    onPageMissing num readOk
  match (← get).pages num with
  | some b => return b
  | none => throw .undefined

/-- One turn of the loop of `Pager::Close`: `FlushPage` and, if it worked, `free`. -/
def closePage (s : Pager) (num : Nat) (writeOk : Bool) : Pager :=
  match s.pages num with
  | none => s
  | some b =>
    if writeOk then
      { s with
        file := writeAt s.file (num * pageSize % 2 ^ 32) b
        pages := setAt s.pages num none }
    else s

/-- The first `m` turns of the loop of `Pager::Close`. -/
def closeLoop (writeOk : Nat → Bool) : Nat → Pager → Pager
  | 0, s => s
  | m + 1, s => (closeLoop writeOk m s).closePage m (writeOk m)

/-- `Pager::Close`. -/
def close (s : Pager) (writeOk : Nat → Bool) : Pager := closeLoop writeOk maxPages s

/-- The end of one `Pager` and the `Pager::Open` of the next on the same file: the destructor
closes. -/
def reopen (s : Pager) (writeOk : Nat → Bool) : Pager := openFile (s.close writeOk).file

end Pager

/-! ## Files, block by block

Page offsets are multiples of the page size, so two different pages never overlap: a write is
read back from its own page and is invisible from every other. -/

theorem length_writeAt (file : List UInt8) (off : Nat) (b : Block) :
    (writeAt file off b).length = max file.length (off + pageSize) := by
  simp only [writeAt, List.length_append, List.length_take, List.length_replicate,
    Vector.length_toList, List.length_drop]
  omega

theorem getD_writeAt (file : List UInt8) (off i : Nat) (b : Block) :
    (writeAt file off b).getD i 0 =
      if i < off then file.getD i 0
      else if i < off + pageSize then b.toList.getD (i - off) 0
      else file.getD i 0 := by
  have hpre : (file.take off ++ List.replicate (off - file.length) (0 : UInt8)).length = off := by
    simp only [List.length_append, List.length_take, List.length_replicate]
    omega
  simp only [writeAt, List.getD_eq_getElem?_getD, List.append_assoc]
  rw [← List.append_assoc (List.take off file)]
  by_cases h₁ : i < off
  · rw [if_pos h₁, List.getElem?_append_left (by omega)]
    by_cases hlen : i < file.length
    · rw [List.getElem?_append_left (by simp; omega), List.getElem?_take, if_pos h₁]
    · rw [List.getElem?_append_right (by simp; omega), List.getElem?_eq_none (l := file) (by omega),
        List.getElem?_replicate]
      split <;> rfl
  · rw [if_neg h₁, List.getElem?_append_right (by omega), hpre]
    by_cases h₂ : i < off + pageSize
    · rw [if_pos h₂, List.getElem?_append_left (by simp; omega)]
    · rw [if_neg h₂, List.getElem?_append_right (by simp; omega), List.getElem?_drop]
      simp only [Vector.length_toList]
      rw [show off + pageSize + (i - off - pageSize) = i by omega]

theorem readAt_writeAt_self (file : List UInt8) (off : Nat) (b : Block) :
    readAt (writeAt file off b) off = b := by
  apply Vector.ext
  intro i hi
  have h₁ : ¬ off + i < off := by omega
  have h₂ : off + i < off + pageSize := by omega
  simp only [readAt, Vector.getElem_ofFn, getD_writeAt, if_neg h₁, if_pos h₂]
  simp [List.getD_eq_getElem?_getD, hi]

theorem readAt_writeAt_of_disjoint {file : List UInt8} {off off' : Nat} {b : Block}
    (h : off + pageSize ≤ off' ∨ off' + pageSize ≤ off) :
    readAt (writeAt file off b) off' = readAt file off' := by
  apply Vector.ext
  intro i hi
  simp only [readAt, Vector.getElem_ofFn, getD_writeAt]
  rcases h with h | h
  · rw [if_neg (by omega), if_neg (by omega)]
  · rw [if_pos (by omega)]

theorem readAt_writeAt_of_ne {file : List UInt8} {m n : Nat} {b : Block} (h : m ≠ n) :
    readAt (writeAt file (m * pageSize) b) (n * pageSize) = readAt file (n * pageSize) := by
  apply readAt_writeAt_of_disjoint
  rw [← Nat.succ_mul, ← Nat.succ_mul]
  rcases Nat.lt_or_gt_of_ne h with hlt | hlt
  · exact Or.inl (Nat.mul_le_mul_right _ hlt)
  · exact Or.inr (Nat.mul_le_mul_right _ hlt)

theorem readAt_of_length_le {file : List UInt8} {off : Nat} (h : file.length ≤ off) :
    readAt file off = Block.zero := by
  apply Vector.ext
  intro i hi
  simp only [readAt, Block.zero, Vector.getElem_ofFn, Vector.getElem_replicate]
  rw [List.getD_eq_default _ _ (by omega)]

/-- Page numbers are small enough for their offsets to be exact. -/
theorem offset_mod {n : Nat} (h : n < maxPages) : n * pageSize % 2 ^ 32 = n * pageSize := by
  apply Nat.mod_eq_of_lt
  simp only [maxPages, pageSize] at *
  omega

/-! ## The pager is an array of pages

The array is split three ways: pages in memory, pages in the file only, and the count. The
clause that makes reopening work is the last one — the page that justifies the count is either
already in the file, or still in memory and so will be written there by `Close`. -/

/-- A pager and the array of pages it stands for. -/
structure Refines (s : Pager) (a : PageArray Block) : Prop where
  count : s.numPages = a.numPages
  bound : a.numPages ≤ maxPages
  /-- A page in memory is the array's page, and counted. -/
  cached : ∀ n b, s.pages n = some b → b = a.pages n ∧ n < a.numPages
  /-- A page not in memory is in the file, or past its end and blank. -/
  stored : ∀ n, s.pages n = none → readAt s.file (n * pageSize) = a.pages n
  whole : ∃ k, s.file.length = k * pageSize ∧ k ≤ a.numPages
  reaches : a.numPages = 0 ∨ s.file.length = a.numPages * pageSize ∨
    (s.pages (a.numPages - 1)).isSome

/-- No `read` is made for a page that is in memory, so it does not matter how it would end. -/
theorem exec_getPage_cached {s : Pager} {n : Nat} {b : Block} (hn : n < maxPages)
    (hp : s.pages n = some b) (readOk : Bool) : exec (Pager.getPage n readOk) s = (.ok b, s) := by
  simp [Pager.getPage, exec_bind, Nat.not_le.mpr hn, hp]

/-- A page the pager does not hold comes from the file, if the count says it has one there. -/
theorem exec_getPage_missing {s : Pager} {n : Nat} (hn : n < maxPages) (hp : s.pages n = none) :
    exec (Pager.getPage n true) s =
      let b := if n < s.numPages then readAt s.file (n * pageSize) else Block.zero
      (.ok b, { s with numPages := max s.numPages (n + 1), pages := setAt s.pages n (some b) }) := by
  by_cases hc : n < s.numPages
  · have hmax : max s.numPages (n + 1) = s.numPages := by omega
    rw [hmax]
    simp only [Pager.getPage, Pager.onPageMissing, offset_mod hn]
    simp [exec_bind, Nat.not_le.mpr hn, hp, hc, Nat.not_le.mpr hc]
  · have hmax : max s.numPages (n + 1) = n + 1 := by omega
    simp [Pager.getPage, Pager.onPageMissing, exec_bind, Nat.not_le.mpr hn, hp, hc, hmax,
      Nat.not_lt.mp hc]

namespace Refines

variable {s : Pager} {a : PageArray Block}

/-- **`GetPage` returns the array's page**, and leaves a pager for the array with that page
brought into use. -/
theorem getPage (h : Refines s a) {n : Nat} (hn : n < maxPages) :
    ∃ s', exec (Pager.getPage n true) s = (.ok (a.pages n), s') ∧ Refines s' (a.getPage n) := by
  cases hp : s.pages n with
  | some b =>
    obtain ⟨rfl, hlt⟩ := h.cached n b hp
    have hsame : a.getPage n = a := by
      have hmax : max a.numPages (n + 1) = a.numPages := by omega
      simp [PageArray.getPage, hmax]
    exact ⟨s, exec_getPage_cached hn hp true, by rw [hsame]; exact h⟩
  | none =>
    have hb : (if n < s.numPages then readAt s.file (n * pageSize) else Block.zero) = a.pages n := by
      split
      · exact h.stored n hp
      · -- Not counted: the file ends before it, so the array has a blank page there too.
        rename_i hc
        rw [← h.stored n hp]
        obtain ⟨k, hk, hle⟩ := h.whole
        rw [readAt_of_length_le]
        rw [hk]
        exact Nat.mul_le_mul_right _ (by have := h.count; omega)
    refine ⟨_, by rw [exec_getPage_missing hn hp, hb], ?_⟩
    have hcount := h.count
    obtain ⟨k, hk, hle⟩ := h.whole
    refine ⟨by simp [PageArray.getPage, hcount], ?_, ?_, ?_, ⟨k, hk, ?_⟩, ?_⟩
    · have := h.bound
      simp only [PageArray.getPage]
      omega
    · intro m b hm
      dsimp only at hm
      by_cases hmn : m = n
      · subst hmn
        rw [setAt_self, Option.some.injEq] at hm
        exact ⟨hm.symm, by simp only [PageArray.getPage]; omega⟩
      · rw [setAt_of_ne hmn] at hm
        obtain ⟨hb', hlt⟩ := h.cached m b hm
        exact ⟨hb', by simp only [PageArray.getPage]; omega⟩
    · intro m hm
      dsimp only at hm
      by_cases hmn : m = n
      · subst hmn; simp at hm
      · rw [setAt_of_ne hmn] at hm
        exact h.stored m hm
    · simp only [PageArray.getPage]
      omega
    · -- The new page is in memory; if it is not the last one, the old last page still counts.
      simp only [PageArray.getPage]
      by_cases hlast : a.numPages ≤ n + 1
      · right; right
        rw [show max a.numPages (n + 1) - 1 = n by omega, setAt_self]
        rfl
      · rw [show max a.numPages (n + 1) = a.numPages by omega]
        rcases h.reaches with h0 | hfile | hmem
        · omega
        · exact Or.inr (Or.inl hfile)
        · right; right
          rw [setAt_of_ne (by omega)]
          exact hmem

theorem overwrite (h : Refines s a) {n : Nat} {b : Block} (hp : (s.pages n).isSome) :
    Refines { s with pages := setAt s.pages n (some b) } (a.overwrite n b) := by
  obtain ⟨old, hold⟩ := Option.isSome_iff_exists.mp hp
  refine ⟨h.count, h.bound, ?_, ?_, h.whole, ?_⟩
  · intro m c hm
    dsimp only at hm
    by_cases hmn : m = n
    · subst hmn
      rw [setAt_self, Option.some.injEq] at hm
      exact ⟨by simp [PageArray.overwrite, hm], (h.cached m old hold).2⟩
    · rw [setAt_of_ne hmn] at hm
      obtain ⟨hb, hlt⟩ := h.cached m c hm
      exact ⟨by simp [PageArray.overwrite, setAt_of_ne hmn, hb], hlt⟩
  · intro m hm
    dsimp only at hm
    by_cases hmn : m = n
    · subst hmn; simp at hm
    · rw [setAt_of_ne hmn] at hm
      simp [PageArray.overwrite, setAt_of_ne hmn, h.stored m hm]
  · rcases h.reaches with h0 | hfile | hmem
    · exact Or.inl h0
    · exact Or.inr (Or.inl hfile)
    · right; right
      dsimp only [PageArray.overwrite, setAt]
      by_cases hn : a.numPages - 1 = n
      · rw [if_pos hn]; rfl
      · rw [if_neg hn]; exact hmem

/-- Writing one page back and dropping it moves it from the memory to the file. -/
theorem closePage (h : Refines s a) (n : Nat) : Refines (s.closePage n true) a := by
  unfold Pager.closePage
  cases hp : s.pages n with
  | none => exact h
  | some b =>
    obtain ⟨rfl, hlt⟩ := h.cached n b hp
    have hoff : n * pageSize % 2 ^ 32 = n * pageSize := offset_mod (by have := h.bound; omega)
    obtain ⟨k, hk, hle⟩ := h.whole
    have hlen : (writeAt s.file (n * pageSize) (a.pages n)).length = max k (n + 1) * pageSize := by
      rw [length_writeAt, hk, ← Nat.succ_mul]
      rcases Nat.le_total k (n + 1) with hkn | hkn
      · rw [Nat.max_eq_right hkn, Nat.max_eq_right (Nat.mul_le_mul_right _ hkn)]
      · rw [Nat.max_eq_left hkn, Nat.max_eq_left (Nat.mul_le_mul_right _ hkn)]
    simp only [if_true, hoff]
    refine ⟨h.count, h.bound, ?_, ?_, ⟨_, hlen, by omega⟩, ?_⟩
    · intro m c hm
      dsimp only at hm
      by_cases hmn : m = n
      · subst hmn; simp at hm
      · rw [setAt_of_ne hmn] at hm
        exact h.cached m c hm
    · intro m hm
      dsimp only at hm ⊢
      by_cases hmn : m = n
      · subst hmn
        exact readAt_writeAt_self _ _ _
      · rw [setAt_of_ne hmn] at hm
        rw [← h.stored m hm]
        exact readAt_writeAt_of_ne (Ne.symm hmn)
    · by_cases hlast : n + 1 = a.numPages
      · right; left
        rw [hlen, show max k (n + 1) = a.numPages by omega]
      · rcases h.reaches with h0 | hfile | hmem
        · exact Or.inl h0
        · right; left
          have hka : k = a.numPages := by
            apply Nat.eq_of_mul_eq_mul_right (show 0 < pageSize by decide)
            rw [← hk, hfile]
          rw [hlen, show max k (n + 1) = a.numPages by omega]
        · right; right
          dsimp only
          rw [setAt_of_ne (by omega)]
          exact hmem

/-- The loop of `Close`: the array is kept by every turn, and after turn `m` no page up to `m`
is in memory. -/
theorem closeLoop (h : Refines s a) : ∀ m,
    Refines (Pager.closeLoop (fun _ => true) m s) a ∧
      ∀ n, n < m → (Pager.closeLoop (fun _ => true) m s).pages n = none := by
  intro m
  induction m with
  | zero => exact ⟨h, fun _ hn => absurd hn (Nat.not_lt_zero _)⟩
  | succ m ih =>
    refine ⟨ih.1.closePage m, fun n hn => ?_⟩
    simp only [Pager.closeLoop, Pager.closePage]
    cases hp : (Pager.closeLoop (fun _ => true) m s).pages m with
    | none =>
      rcases Nat.lt_succ_iff_lt_or_eq.mp hn with hlt | rfl
      · exact ih.2 n hlt
      · exact hp
    | some b =>
      simp only [if_true, setAt]
      split
      · rfl
      · exact ih.2 n (by omega)

/-- Slots past the end of `pages` are never used, so a loop that reaches the end leaves nothing
in memory anywhere. -/
theorem closeLoop_all (h : Refines s a) {m : Nat} (hm : maxPages ≤ m) :
    Refines (Pager.closeLoop (fun _ => true) m s) a ∧
      ∀ n, (Pager.closeLoop (fun _ => true) m s).pages n = none := by
  obtain ⟨hr, hnone⟩ := h.closeLoop m
  refine ⟨hr, fun n => ?_⟩
  cases hp : (Pager.closeLoop (fun _ => true) m s).pages n with
  | none => rfl
  | some b =>
    have hlt := (hr.cached n b hp).2
    rw [← hp]
    exact hnone n (Nat.lt_of_lt_of_le hlt (Nat.le_trans hr.bound hm))

theorem close (h : Refines s a) :
    ∃ t, s.close (fun _ => true) = t ∧ Refines t a ∧ ∀ n, t.pages n = none :=
  ⟨Pager.closeLoop (fun _ => true) maxPages s, rfl, h.closeLoop_all (Nat.le_refl _)⟩

/-- **Reopening recovers the array**: with nothing left in memory the file alone is the array,
and its length is the count. -/
theorem reopen (h : Refines s a) : Refines (s.reopen fun _ => true) a := by
  obtain ⟨t, ht, hr, hnone⟩ := h.close
  rw [Pager.reopen, ht]
  have hlen : t.file.length = a.numPages * pageSize := by
    rcases hr.reaches with h0 | hfile | hmem
    · obtain ⟨k, hk, hle⟩ := hr.whole
      rw [hk, show k = a.numPages by omega]
    · exact hfile
    · rw [hnone] at hmem
      exact absurd hmem (by simp)
  have hmod : t.file.length % 2 ^ 32 = a.numPages * pageSize := by
    rw [hlen]
    apply Nat.mod_eq_of_lt
    have := hr.bound
    simp only [maxPages, pageSize] at *
    omega
  refine ⟨?_, hr.bound, ?_, fun n _ => hr.stored n (hnone n), ⟨_, hlen, Nat.le_refl _⟩,
    Or.inr (Or.inl hlen)⟩
  · show t.file.length % 2 ^ 32 / pageSize = a.numPages
    rw [hmod, Nat.mul_div_cancel _ (by decide)]
  · intro n b hn
    exact absurd hn (by simp [Pager.openFile])

end Refines

/-! ## Sessions

A session begins on an empty file. Its steps are the calls of `GetPage` with a number the
`pages` array has room for, stores through a pointer `GetPage` returned (which is valid only as
long as the page is in memory), `Close`, and the end of the pager followed by a new `Open`. -/

inductive PagerOp where
  | getPage (n : Nat)
  | overwrite (n : Nat) (b : Block)
  | close
  | reopen

namespace PagerOp

/-- When a step may be taken. -/
def Allowed (s : Pager) : PagerOp → Prop
  | getPage n => n < maxPages
  | overwrite n _ => (s.pages n).isSome
  | close => True
  | reopen => True

instance (s : Pager) : (op : PagerOp) → Decidable (op.Allowed s)
  | getPage n => inferInstanceAs (Decidable (n < maxPages))
  | overwrite n _ => inferInstanceAs (Decidable ((s.pages n).isSome = true))
  | close => .isTrue trivial
  | reopen => .isTrue trivial

/-- A step on the pager, with every `read` and `write` succeeding. -/
def step (s : Pager) : PagerOp → Pager
  | getPage n => (exec (Pager.getPage n true) s).2
  | overwrite n b => { s with pages := setAt s.pages n (some b) }
  | close => s.close fun _ => true
  | reopen => s.reopen fun _ => true

/-- The same step on the array. -/
def specStep (a : PageArray Block) : PagerOp → PageArray Block
  | getPage n => a.getPage n
  | overwrite n b => a.overwrite n b
  | close => a
  | reopen => a

end PagerOp

/-- The sessions and the pagers they lead to. -/
inductive Session : List PagerOp → Pager → Prop where
  | start : Session [] (Pager.openFile [])
  | step {ops : List PagerOp} {s : Pager} (h : Session ops s) (op : PagerOp) (ha : op.Allowed s) :
      Session (ops ++ [op]) (op.step s)

/-- One more than the largest page number a session has asked for, 0 if it asked for none. -/
def pagesRequested (ops : List PagerOp) : Nat :=
  ops.foldl (fun c op => match op with | .getPage n => max c (n + 1) | _ => c) 0

/-- The bytes a session last wrote to a page, all zero if it never wrote it. -/
def lastWritten (ops : List PagerOp) (n : Nat) : Block :=
  ops.foldl (fun b op => match op with | .overwrite m b' => if m = n then b' else b | _ => b)
    Block.zero

theorem Refines.step {s : Pager} {a : PageArray Block} (h : Refines s a) {op : PagerOp}
    (ha : op.Allowed s) : Refines (op.step s) (op.specStep a) := by
  cases op with
  | getPage n =>
    obtain ⟨s', hs', hr⟩ := h.getPage ha
    simpa only [PagerOp.step, PagerOp.specStep, hs'] using hr
  | overwrite n b => exact h.overwrite ha
  | close =>
    obtain ⟨t, ht, hr, -⟩ := h.close
    simpa only [PagerOp.step, PagerOp.specStep, ht] using hr
  | reopen => exact h.reopen

theorem Refines.start : Refines (Pager.openFile []) ⟨0, fun _ => Block.zero⟩ where
  count := rfl
  bound := Nat.zero_le _
  cached := fun n b h => absurd h (by simp [Pager.openFile])
  stored := fun n _ => readAt_of_length_le (Nat.zero_le _)
  whole := ⟨0, rfl, Nat.le_refl _⟩
  reaches := Or.inl rfl

/-- The array of a session, grown by one step. -/
theorem specStep_eq_snoc (ops : List PagerOp) (op : PagerOp) :
    op.specStep ⟨pagesRequested ops, lastWritten ops⟩ =
      ⟨pagesRequested (ops ++ [op]), lastWritten (ops ++ [op])⟩ := by
  have hpages : ∀ n, lastWritten (ops ++ [op]) n =
      (op.specStep ⟨pagesRequested ops, lastWritten ops⟩).pages n := by
    intro n
    simp only [lastWritten, List.foldl_append, List.foldl_cons, List.foldl_nil]
    cases op with
    | overwrite m b => simp only [PagerOp.specStep, PageArray.overwrite, setAt, lastWritten, eq_comm]
    | _ => rfl
  rw [funext hpages]
  simp only [pagesRequested, List.foldl_append, List.foldl_cons, List.foldl_nil]
  cases op <;> rfl

theorem Session.refines {ops : List PagerOp} {s : Pager} (h : Session ops s) :
    Refines s ⟨pagesRequested ops, lastWritten ops⟩ := by
  induction h with
  | start => exact Refines.start
  | @step ops s op _ ha ih =>
    rw [← specStep_eq_snoc]
    exact ih.step ha

/-- **The pager is an array of pages.** Whatever a session did, `GetPage(n)` succeeds with the bytes
last written to page `n`, and the page count is one more than the largest number asked for.

A session may close the file and open it again in between, which writes out the pages that are there
and counts the pages from the length of the file. `Refines` relates a pager to the array it stands
for across all of this. -/
theorem session_getPage_pageNums {ops : List PagerOp} {s : Pager} (h : Session ops s) :
    s.numPages = pagesRequested ops ∧
      ∀ n, n < maxPages → (exec (Pager.getPage n true) s).1 = .ok (lastWritten ops n) := by
  refine ⟨h.refines.count, fun n hn => ?_⟩
  obtain ⟨s', hs', -⟩ := h.refines.getPage hn
  rw [hs']

/-- A page written, closed, and read back through a new pager on the same file, with the pages
before it never asked for. -/
theorem session_sparse_reopen :
    ∃ s, Session [.getPage 2, .overwrite 2 (Vector.replicate _ 7), .close, .reopen] s ∧
      s.numPages = 3 ∧ (exec (Pager.getPage 2 true) s).1 = .ok (Vector.replicate _ 7) ∧
      (exec (Pager.getPage 0 true) s).1 = .ok Block.zero := by
  generalize hb : (Vector.replicate pageSize 7 : Block) = b
  have h₁ : Session [.getPage 2] _ := Session.start.step (.getPage 2) (by decide)
  have h₂ : Session [.getPage 2, .overwrite 2 b] _ :=
    h₁.step (.overwrite 2 b) (by
      show ((exec (Pager.getPage 2 true) (Pager.openFile [])).2.pages 2).isSome = true
      rw [exec_getPage_missing (by decide) rfl]
      rfl)
  have h₃ : Session [.getPage 2, .overwrite 2 b, .close] _ := h₂.step .close trivial
  have h₄ := h₃.step .reopen trivial
  obtain ⟨hcount, hpages⟩ := session_getPage_pageNums h₄
  refine ⟨_, h₄, hcount, ?_, hpages 0 (by decide)⟩
  rw [hpages 2 (by decide)]
  simp [lastWritten]

end CxxLab.DbLab
