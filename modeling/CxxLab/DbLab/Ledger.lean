import CxxLab.DbLab.Ingest
import CxxLab.DbLab.Programs

/-!
# `db_lab/main.cpp` — a ledger

What the program can be used for as it is: a ledger, in which every entry has a larger id than all
before it. As long as the strings fit their buffers and there are not too many entries for the root,
the program over its file prints what a list prints that entries are appended to. It does so over any
number of runs, and whatever is on the stack when a row is made or behind it when it is printed
(`runs_ledger`).
-/

set_option autoImplicit false

namespace CxxLab.DbLab

open CxxLab.Lib Exec

/-- An entry that can be written on a line and that fits into a row. -/
structure Entry where
  id : UInt32
  username : Str
  email : Str
  username_fits : username.length < 32
  email_fits : email.length < 255
  email_ne : email ≠ []
  plain : ∀ s ∈ [username, email], 0 ∉ s ∧ Tokener.delimiter ∉ s

namespace Entry

def row (e : Entry) : UserSchema :=
  ({ UserSchema.zero with id := e.id }.setUserName (some e.username)).setEmail (some e.email)

def cell (e : Entry) : LeafCell := ⟨e.id, e.row⟩

/-- The line that inserts it. -/
def line (e : Entry) : Str :=
  [Tokener.delimiter].intercalate [stInsert, Decimal.text e.id.toNat, e.username, e.email]

/-- What `ToString` should give. -/
def text (e : Entry) : Str := Row.line e.id e.username e.email

/-- **The text of a row that holds the entry**, with any padding and anything behind it. -/
theorem toString_eq (e : Entry) {r : Row} (hr : r.user = e.row) (behind : List UInt8) :
    r.toString behind = some e.text := by
  have hemail : r.user.email = CString.strncpy 255 e.email := by rw [hr]; rfl
  have husername : r.user.username = CString.strncpy 32 e.username := by rw [hr]; rfl
  have hid : r.user.id = e.id := by rw [hr]; rfl
  rw [Row.toString, hemail, husername, hid, CString.read_strncpy _ (e.plain _ (by simp)).1,
    CString.read_strncpy _ (e.plain _ (by simp)).1, if_pos e.email_fits, if_pos e.username_fits]
  rfl

theorem parse_line (e : Entry) : Tokener.parse e.line =
    some [stInsert, Decimal.text e.id.toNat, e.username, e.email] := by
  have hdigits : Tokener.delimiter ∉ Decimal.text e.id.toNat := fun h =>
    absurd ((Decimal.numeral_text _).2 _ h) (by decide)
  have hword : Tokener.delimiter ∉ stInsert := by decide
  have hplain : ∀ s ∈ [stInsert, Decimal.text e.id.toNat, e.username, e.email],
      Tokener.delimiter ∉ s := by
    simpa using ⟨hword, hdigits, (e.plain _ (by simp)).2, (e.plain _ (by simp)).2⟩
  rw [Tokener.parse_eq, line, List.splitOn_intercalate _ hplain (by simp), Tokener.dropEmptyLast,
    if_neg (by simpa using e.email_ne)]

theorem insertRow_line (e : Entry) :
    insertRow [stInsert, Decimal.text e.id.toNat, e.username, e.email] = some e.row := by
  have hlt : Decimal.value (Decimal.text e.id.toNat) < 2 ^ 64 := by
    rw [Decimal.value_text]
    exact Nat.lt_trans e.id.toNat_lt (by decide)
  rw [insertRow_of_stoul (Decimal.stoul_numeral (Decimal.numeral_text _) hlt), Decimal.value_text,
    UInt32.ofNat_toNat]
  rfl

end Entry

/-! ## What a ledger does -/

inductive LedgerLine where
  | insert (e : Entry)
  | select

namespace LedgerLine

def line : LedgerLine → Str
  | insert e => e.line
  | select => stSelect

def added : List LedgerLine → List Entry :=
  List.filterMap fun
    | insert e => some e
    | select => none

end LedgerLine

namespace Ledger

/-- What each line prints: nothing for an `insert`, all entries so far for a `select`. -/
def turns : List Entry → List LedgerLine → List (List Entry)
  | _, [] => []
  | log, .insert e :: lines => [] :: turns (log ++ [e]) lines
  | log, .select :: lines => log :: turns log lines

/-- A run prints the entries first, and the next one has what it has added. -/
def runs : List Entry → List (List LedgerLine) → List (List (List Entry))
  | _, [] => []
  | log, lines :: rest => (log :: turns log lines) :: runs (log ++ LedgerLine.added lines) rest

/-- So many ascending entries that the root can be split off for each leaf but has no key too many. -/
structure Ascending (fuel : Nat) (log : List Entry) : Prop where
  ids : (log.map Entry.id).Pairwise (· < ·)
  size : log.length / 7 - 1 ≤ InternalPage.maxCells
  fuel : log.length ≤ fuel

theorem Ascending.initial {fuel : Nat} {log more : List Entry} (h : Ascending fuel (log ++ more)) :
    Ascending fuel log := by
  have hlen : (log ++ more).length = log.length + more.length := List.length_append
  have hsize := h.size
  have hfuel := h.fuel
  refine ⟨?_, by omega, by omega⟩
  have hids := h.ids
  rw [List.map_append] at hids
  exact (List.pairwise_append.mp hids).1

/-! ## The table is a ledger -/

/-- The table holds these entries. -/
def Kept (t : Table) (log : List Entry) : Prop := Ascended t (log.map Entry.cell)

theorem Kept.exec_scan {t : Table} {log : List Entry} {fuel : Nat} (h : Kept t log)
    (hfuel : log.length ≤ fuel) : exec (Table.scan fuel) t = (.ok (log.map Entry.row), t) := by
  rw [h.holds.scan (by rwa [List.length_map]), List.map_map]
  rfl

theorem Kept.exec_dump {t : Table} {log : List Entry} {fuel : Nat} (h : Kept t log)
    (hfuel : log.length ≤ fuel) : ∃ rows, exec (Table.turn fuel none) t = (.ok rows, t) ∧
      rows.map Prod.snd = log.map Entry.row := by
  have hscan := h.exec_scan hfuel
  rw [Table.scan_eq, exec_map] at hscan
  rcases hdump : exec (Table.dumpTree fuel) t with ⟨r, t'⟩
  rw [hdump] at hscan
  cases r with
  | error e => cases hscan
  | ok rows =>
    obtain ⟨hrows, rfl⟩ := Prod.mk.inj hscan
    refine ⟨rows.map (Prod.map some id), ?_, ?_⟩
    · rw [Table.turn, exec_map, onTable, exec_adapt, hdump]
      rfl
    · rw [← Except.ok.inj hrows, List.map_map]
      rfl

theorem Kept.exec_select {t : Table} {log : List Entry} {fuel : Nat} (h : Kept t log)
    (hfuel : log.length ≤ fuel) :
    exec (Table.turn fuel (some stSelect)) t =
      (.ok (log.map fun e => (none, e.row)), t) := by
  have hparse : Tokener.parse stSelect = some [stSelect] := by
    rw [Tokener.parse_eq]
    decide
  have hinput : processInput stSelect = .ok ⟨.select, stSelect⟩ := rfl
  rw [Table.turn, exec_map, command, hinput]
  dsimp only
  rw [executeStatement, hparse]
  dsimp only
  rw [if_pos rfl, executeSelect, onTable, exec_adapt, h.exec_scan hfuel]
  show ((.ok ((log.map Entry.row).map _) : Except CommandFail _), t) = _
  rw [List.map_map]
  rfl

theorem Kept.exec_insert {t : Table} {log : List Entry} {e : Entry} {fuel : Nat} (h : Kept t log)
    (hasc : Ascending fuel (log ++ [e])) :
    ∃ t', exec (Table.turn fuel (some e.line)) t = (.ok [], t') ∧ Kept t' (log ++ [e]) := by
  have hids := hasc.ids
  rw [List.map_append] at hids
  have habove : ∀ c ∈ log.map Entry.cell, c.key < e.id := by
    intro c hc
    obtain ⟨d, hd, rfl⟩ := List.mem_map.mp hc
    exact (List.pairwise_append.mp hids).2.2 d.id (List.mem_map_of_mem hd) e.id (by simp)
  have hsize := hasc.size
  rw [List.length_append] at hsize
  obtain ⟨t', hrun, h'⟩ := Ascended.insert h e.row habove (by rwa [List.length_map])
  refine ⟨t', ?_, ?_⟩
  · rw [Table.turn, exec_map, exec_command_insert fuel t e.parse_line, e.insertRow_line]
    dsimp only
    have hinsert : exec (onTable (Table.insert e.row.id e.row)) t = (.ok (), t') := by
      rw [onTable, exec_adapt, show e.row.id = e.id from rfl, hrun]
      rfl
    rw [exec_bind_ok hinsert]
    rfl
  · rw [Kept, List.map_append]
    exact h'

/-- The lines of a run. -/
theorem exec_turns (fuel : Nat) : ∀ (lines : List LedgerLine) {t : Table} {log : List Entry},
    Kept t log → Ascending fuel (log ++ LedgerLine.added lines) →
    ∃ outs t', runLoop (Table.turn fuel) (lines.map fun l => some l.line) t = (outs, some t') ∧
      outs.map (Except.map (List.map Prod.snd)) =
        (turns log lines).map (fun es => .ok (es.map Entry.row)) ∧
      Kept t' (log ++ LedgerLine.added lines) := by
  intro lines
  induction lines with
  | nil =>
    intro t log h _
    exact ⟨[], t, rfl, rfl, by simpa [LedgerLine.added] using h⟩
  | cons l lines ih =>
    intro t log h hasc
    cases l with
    | insert e =>
      have hadded : log ++ LedgerLine.added (.insert e :: lines) =
          (log ++ [e]) ++ LedgerLine.added lines := by simp [LedgerLine.added]
      rw [hadded] at hasc ⊢
      obtain ⟨t₁, hrun, h₁⟩ := h.exec_insert hasc.initial
      obtain ⟨outs, t', hruns, houts, h'⟩ := ih h₁ hasc
      refine ⟨.ok [] :: outs, t', ?_, ?_, h'⟩
      · rw [List.map_cons, runLoop, show LedgerLine.line (.insert e) = e.line from rfl, hrun]
        dsimp only
        rw [hruns]
      · rw [List.map_cons, houts]
        rfl
    | select =>
      have hadded : log ++ LedgerLine.added (.select :: lines) = log ++ LedgerLine.added lines := rfl
      rw [hadded] at hasc ⊢
      obtain ⟨outs, t', hruns, houts, h'⟩ := ih h hasc
      refine ⟨.ok (log.map fun e => (none, e.row)) :: outs, t', ?_, ?_, h'⟩
      · rw [List.map_cons, runLoop, show LedgerLine.line .select = stSelect from rfl,
          h.exec_select hasc.initial.fuel]
        dsimp only
        rw [hruns]
      · rw [List.map_cons, houts]
        show Except.ok ((log.map _).map _) :: _ = _
        rw [List.map_map]
        rfl

/-- Run after run. -/
theorem table_runs (fuel : Nat) : ∀ (days : List (List LedgerLine)) {t : Table} (log : List Entry),
    Kept t log → Ascending fuel (log ++ days.flatMap LedgerLine.added) →
    (Table.runs fuel t (days.map (List.map LedgerLine.line))).map
        (List.map (Except.map (List.map Prod.snd))) =
      (runs log days).map (List.map fun es => .ok (es.map Entry.row)) := by
  intro days
  induction days with
  | nil => intros; rfl
  | cons lines days ih =>
    intro t log h hasc
    rw [List.flatMap_cons, ← List.append_assoc] at hasc
    obtain ⟨rows, hdump, hrows⟩ := h.exec_dump hasc.initial.initial.fuel
    obtain ⟨outs, t', hruns, houts, h'⟩ := exec_turns fuel lines h hasc.initial
    have hrun : Table.run fuel t (lines.map LedgerLine.line) = (.ok rows :: outs, t') := by
      rw [Table.run, runLoop, hdump]
      dsimp only
      rw [List.map_map]
      show ((Except.ok rows :: (runLoop _ _ t).1, ((runLoop _ _ t).2.getD t)) : _ × _) = _
      rw [show (some ∘ LedgerLine.line) = fun l => some l.line from rfl, hruns]
      rfl
    rw [List.map_cons, Table.runs, hrun]
    dsimp only
    rw [List.map_cons, ih _ h' hasc, runs, List.map_cons, List.map_cons, houts]
    congr 2
    exact congrArg Except.ok hrows

/-! ## And so is the file -/

/-- Lists that agree place by place agree in whatever that decides. -/
theorem map_eq_map_of {α β γ δ : Type} {f : α → γ} {g : β → γ} {f' : α → δ} {g' : β → δ}
    (h : ∀ a b, f a = g b → f' a = g' b) :
    ∀ {as : List α} {bs : List β}, as.map f = bs.map g → as.map f' = bs.map g' := by
  intro as
  induction as with
  | nil =>
    intro bs heq
    rw [List.map_eq_nil_iff.mp heq.symm]
    rfl
  | cons a as ih =>
    intro bs heq
    cases bs with
    | nil => cases heq
    | cons b bs =>
      obtain ⟨hhead, htail⟩ := List.cons.inj heq
      rw [List.map_cons, List.map_cons, h a b hhead, ih htail]

/-- What a run prints, row by row, with `behind` behind each row. -/
def printed (behind : List UInt8) (out : Except CommandFail (List (Option Cursor × Row))) :
    Except CommandFail (List (Option Str)) :=
  out.map (List.map fun x => x.2.toString behind)

/-- **The program is a ledger**, over any number of runs on a file that begins empty: each run first
prints the entries of all runs before it, each `insert` succeeds, and each `select` prints the entries
so far. -/
theorem runs_ledger {fuel : Nat} (days : List (List (LedgerLine × Row)))
    (hasc : Ascending fuel (days.flatMap fun day => LedgerLine.added (day.map Prod.fst)))
    (behind : List UInt8) :
    (FileTable.runs fuel [] (days.map (List.map fun x => ⟨x.1.line, x.2⟩))).map
        (List.map (printed behind)) =
      (runs [] (days.map (List.map Prod.fst))).map
        (List.map fun es => .ok (es.map fun e => some e.text)) := by
  have hlines : (days.map (List.map fun x => (⟨x.1.line, x.2⟩ : Input))).map (List.map Input.line) =
      (days.map (List.map Prod.fst)).map (List.map LedgerLine.line) := by
    simp only [List.map_map, Function.comp_def]
  have hrows := congrArg (List.map (List.map (Except.map (List.map Prod.snd))))
    (runs_on fuel (days.map (List.map fun x => ⟨x.1.line, x.2⟩)) On.openFile_nil)
  rw [hlines, table_runs fuel _ [] (.leaf RootLeaf.openEmpty)
    (by simpa [List.flatMap_map] using hasc), List.map_map] at hrows
  refine map_eq_map_of (fun day es h => ?_) hrows
  rw [Function.comp_apply, List.map_map] at h
  refine map_eq_map_of (fun out es h => ?_) h
  cases out with
  | error e => cases h
  | ok rows =>
    have hok : rows.map (fun x => x.2.user) = es.map Entry.row := by
      have hok := Except.ok.inj h
      rwa [List.map_map] at hok
    exact congrArg Except.ok (map_eq_map_of (fun x e h => e.toString_eq h behind) hok)

def ada : Entry := ⟨3, lit "ada", lit "a@b", by decide, by decide, by decide, by decide⟩

def bob : Entry := ⟨4294967295, lit "bob", lit "b@c", by decide, by decide, by decide, by decide⟩

/-- A record with something left in it. -/
def used : Row := ⟨ada.row, 7⟩

/-- One entry a day, and a look at them on the third. -/
theorem runs_ledger_two :
    (FileTable.runs 2 [] [[⟨ada.line, used⟩], [⟨bob.line, used⟩], [⟨stSelect, used⟩]]).map
        (List.map (printed [])) =
      [[.ok [], .ok []], [.ok [some ada.text], .ok []],
        [.ok [some ada.text, some bob.text], .ok [some ada.text, some bob.text]]] :=
  runs_ledger [[(.insert ada, used)], [(.insert bob, used)], [(.select, used)]]
    ⟨by decide, by decide, by decide⟩ []

end Ledger

end CxxLab.DbLab
