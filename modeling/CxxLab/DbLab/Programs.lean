import CxxLab.DbLab.Command
import CxxLab.DbLab.OnDisk

/-!
# `db_lab/main.cpp` — the program, run after run

A run of the program opens the file, prints the table, takes lines until `.exit` and closes the file.
Pages are written by `Close` and nowhere else, so a run that dies on the way leaves the file as it found
it.

To its user the program is a table that is kept from one run to the next: `runs_eq` compares any number
of runs over a file, line by line, with the same lines on a `Table` that nothing is ever done to in
between. What is on the stack when `execute_statement` makes a row has no part in it.
-/

set_option autoImplicit false

namespace CxxLab.DbLab

open CxxLab.Lib Exec

/-! ## One line -/

namespace FileTable

/-- A call on the table, from the command loop. -/
def onTable {α : Type} (x : FileM α) : Exec CommandFail FileTable α :=
  ExceptT.adapt CommandFail.table x

/-- `execute_select`: the rows it prints. -/
def executeSelect (fuel : Nat) : Exec CommandFail FileTable (List Row) := onTable (scan fuel)

/-- The row of an `insert`, in the local variable `user`. -/
def insertRow (user : Row) : List Str → Option Row
  | [_, id, username, email] => do
    let (value, pos) ← Decimal.stoul id
    if id.length - pos ≠ 0 then none
    else return user.fill (UInt32.ofNat value) username email
  | _ => none

/-- `execute_statement`. -/
def executeStatement (fuel : Nat) (user : Row) (st : Statement) :
    Exec CommandFail FileTable (List Row) :=
  match Tokener.parse st.st with
  | some (word :: args) =>
    if word = stSelect then executeSelect fuel
    else if word = stDelete then return []
    else if word = stInsert then
      match insertRow user (word :: args) with
      | none => throw (.status ⟨.illigleSt, lit "illigle statement " ++ quoted st.st⟩)
      | some user => do
        onTable (insert user.user.id user)
        return []
    else throw (.status ⟨.invalidSt, lit "unkown statement " ++ quoted st.st⟩)
  | _ => throw (.table .undefined)

/-- One turn of the loop of `main`. -/
def command (fuel : Nat) (user : Row) (input : Str) : Exec CommandFail FileTable (List Row) :=
  match processInput input with
  | .error s => throw (.status s)
  | .ok st => executeStatement fuel user st

end FileTable

/-! ## The loop of `main` -/

/-- How the loop goes on after an error. -/
inductive Ending where
  /-- The status is printed. -/
  | next
  /-- `.exit`. -/
  | exit
  /-- An assertion fails, or worse. -/
  | dies
  deriving DecidableEq

def CommandFail.ending : CommandFail → Ending
  | .status s => if s.type = .exit then .exit else .next
  | .table (.status _) => .next
  | .table _ => .dies

/-- The loop of `main`: what each line comes to, and the state at the end, if the program lives that
long. Behind the last line stands an `.exit`. -/
def runLoop {ι σ ω : Type} (command : ι → Exec CommandFail σ ω) :
    List ι → σ → List (Except CommandFail ω) × Option σ
  | [], s => ([], some s)
  | input :: inputs, s =>
    match exec (command input) s with
    | (.ok out, s') =>
      let (outs, last) := runLoop command inputs s'
      (.ok out :: outs, last)
    | (.error e, s') =>
      match e.ending with
      | .next =>
        let (outs, last) := runLoop command inputs s'
        (.error e :: outs, last)
      | .exit => ([.error e], some s')
      | .dies => ([.error e], none)

/-- A line, and what is on the stack where `execute_statement` has its `user`. -/
structure Input where
  line : Str
  user : Row

/-- `DumpTree`, which prints each row with its place, and then the lines. -/
def FileTable.turn (fuel : Nat) :
    Option Input → Exec CommandFail FileTable (List (Option Cursor × Row))
  | none => List.map (Prod.map some id) <$> onTable (dumpTree fuel)
  | some input => List.map (Prod.mk none) <$> command fuel input.user input.line

/-- A run over a file: the output, and the file it leaves. -/
def FileTable.run (fuel : Nat) (file : List UInt8) (inputs : List Input) :
    List (Except CommandFail (List (Option Cursor × Row))) × List UInt8 :=
  let (outs, last) := runLoop (turn fuel) (none :: inputs.map some) (openFile file)
  (outs, (last.map closed).getD file)

/-- Run after run over the same file. -/
def FileTable.runs (fuel : Nat) : List UInt8 → List (List Input) →
    List (List (Except CommandFail (List (Option Cursor × Row))))
  | _, [] => []
  | file, inputs :: rest =>
    let (outs, file) := FileTable.run fuel file inputs
    outs :: FileTable.runs fuel file rest

def Table.turn (fuel : Nat) :
    Option Str → Exec CommandFail Table (List (Option Cursor × UserSchema))
  | none => List.map (Prod.map some id) <$> onTable (dumpTree fuel)
  | some line => List.map (Prod.mk none) <$> command fuel line

/-- The same lines on a table. A run that dies has not happened. -/
def Table.run (fuel : Nat) (t : Table) (lines : List Str) :
    List (Except CommandFail (List (Option Cursor × UserSchema))) × Table :=
  let (outs, last) := runLoop (turn fuel) (none :: lines.map some) t
  (outs, last.getD t)

def Table.runs (fuel : Nat) : Table → List (List Str) →
    List (List (Except CommandFail (List (Option Cursor × UserSchema))))
  | _, [] => []
  | t, lines :: rest =>
    let (outs, t) := Table.run fuel t lines
    outs :: Table.runs fuel t rest

/-! ## Opening and closing -/

/-- A new file. -/
theorem On.openFile_nil : On [] (fun _ => True) (FileTable.openFile []) Table.openEmpty := by
  obtain ⟨p, hp, hrefines⟩ := Refines.start.getPage (n := 0) (by decide)
  have hcached : (p.pages 0).isSome := by
    have h := isSome_getPage (Pager.openFile []) (n := 0) (by decide) 0 (Or.inl rfl)
    rwa [hp] at h
  obtain ⟨b, hb⟩ := Option.isSome_iff_exists.mp hcached
  have hopen : FileTable.openFile [] = ⟨0, { p with
      pages := setAt p.pages 0 (some (Block.zero.leafReset.setRoot true)) }⟩ := by
    have hinit : exec (FileTable.getPage 0) ⟨0, Pager.openFile []⟩ = (.ok Block.zero, ⟨0, p⟩) := by
      rw [FileTable.getPage, exec_onPager, hp]
    have hempty : (Pager.openFile []).numPages = 0 := rfl
    show (exec FileTable.init ⟨0, Pager.openFile []⟩).2 = _
    rw [FileTable.init, exec_bind_ok (exec_get _), if_pos hempty, exec_bind_ok hinit,
      FileTable.setPage, exec_bind_ok (exec_get _)]
    dsimp only
    rw [hb]
    rfl
  have hroot : (Block.zero.leafReset.setRoot true).Shows
      { Page.zero.leafReset with isRoot := true } :=
    (Block.shows_zero.leafReset (by decide)).setRoot true
  rw [hopen]
  refine ⟨⟨⟨rfl, rfl⟩, Nat.one_pos, ⟨_, hrefines.overwrite hcached, rfl, fun n => ?_⟩,
    List.forall_mem_nil _⟩,
    fun n => ?_, trivial⟩
  · show (setAt (fun _ => Block.zero) 0 _ n).Shows (setAt (fun _ => Page.zero) 0 _ n)
    by_cases hn : n = 0
    · rw [hn, setAt_self, setAt_self]
      exact hroot
    · rw [setAt_of_ne hn, setAt_of_ne hn]
      exact Block.shows_zero
  · show PageOk n (setAt (fun _ => Page.zero) 0 _ n)
    by_cases hn : n = 0
    · rw [hn, setAt_self]
      exact .of_leafy (fun _ => rfl) leaf_ne_internal (Nat.zero_le _)
    · rw [setAt_of_ne hn]
      exact .zero n

theorem exec_init_of_pages {p : Pager} (h : p.numPages ≠ 0) :
    exec FileTable.init ⟨0, p⟩ = (.ok (), ⟨0, p⟩) := by
  rw [FileTable.init, exec_bind_ok (exec_get _), if_neg h]
  rfl

/-- The two sides are functions here, so that no check of this equation runs `Close` over the pages. -/
theorem FileTable.closed_def :
    FileTable.closed = fun ft => (ft.pager.close fun _ => true).file := by
  delta FileTable.closed
  rfl

/-- A table that is closed and opened again. With a page in the file nothing is made anew. -/
theorem On.reopen {S : List Nat} {F : (Nat → Page) → Prop} {ft : FileTable} {t : Table}
    (h : On S F ft t) : On [] F (FileTable.openFile ft.closed) t := by
  obtain ⟨hstands, hok, hF⟩ := h
  obtain ⟨a, hrefines, hnum, hshow⟩ := hstands.array
  have hagain := hrefines.reopen
  rw [Pager.reopen] at hagain
  simp only [FileTable.closed_def]
  generalize (ft.pager.close fun _ => true).file = file at hagain ⊢
  have hpages : (Pager.openFile file).numPages ≠ 0 := by
    rw [hagain.count, hnum]
    exact Nat.ne_of_gt hstands.nonempty
  rw [FileTable.openFile, exec_init_of_pages hpages]
  exact ⟨⟨⟨rfl, hstands.rootPageNum.2⟩, hstands.nonempty, ⟨a, hagain, hnum, hshow⟩,
    List.forall_mem_nil _⟩, hok, hF⟩

/-! ## Line by line -/

/-- After an error that does not end the program the tables are still the same. -/
def AfterLine (e : CommandFail) (ft : FileTable) (t : Table) : Prop :=
  e.ending ≠ .dies → On [] (fun _ => True) ft t

/-- A status of the table is one the loop goes on after. -/
theorem AfterError.line {e : Fail} {ft : FileTable} {t : Table} (h : AfterError e ft t) :
    AfterLine (.table e) ft t := by
  intro hlives
  cases e with
  | status s => exact h s rfl
  | assertion => exact absurd rfl hlives
  | undefined => exact absurd rfl hlives
  | outOfFuel => exact absurd rfl hlives

theorem exec_adapt {ε ε' σ α : Type} (f : ε → ε') (x : Exec ε σ α) (s : σ) :
    exec (ExceptT.adapt f x : Exec ε' σ α) s = ((exec x s).1.mapError f, (exec x s).2) := rfl

namespace Sim

/-- A comparison of calls on the tables, seen from the command loop. -/
theorem onTable {α β : Type} {x : FileM α} {y : DbM β} {Q : α → β → FileTable → Table → Prop}
    {P : FileTable → Table → Prop} (h : Sim P x y Q AfterError) :
    Sim P (FileTable.onTable x) (DbLab.onTable y) Q AfterLine := by
  intro ft t hst
  have hend := h ft t hst
  rw [FileTable.onTable, DbLab.onTable, exec_adapt, exec_adapt]
  rcases hs : exec x ft with ⟨r, s'⟩
  rcases ht : exec y t with ⟨r', t'⟩
  rw [hs, ht] at hend
  cases r with
  | ok a =>
    cases r' with
    | ok b => exact hend
    | error e => exact hend.elim
  | error e =>
    cases r' with
    | ok b => exact hend.elim
    | error e' => exact ⟨congrArg CommandFail.table hend.1, hend.2.line⟩

theorem executeSelect (fuel : Nat) :
    Sim (On [] fun _ => True) (FileTable.executeSelect fuel) (DbLab.executeSelect fuel)
      (fun rows users ft t => rows.map Row.user = users ∧ On [] (fun _ => True) ft t) AfterLine :=
  onTable (scan fuel)

end Sim

/-- All members of `user` are set. -/
theorem map_insertRow (user : Row) (words : List Str) :
    (FileTable.insertRow user words).map Row.user = insertRow words := by
  rcases words with _ | ⟨word, _ | ⟨id, _ | ⟨un, _ | ⟨e, _ | ⟨w, ws⟩⟩⟩⟩⟩
  case cons.cons.cons.cons.nil =>
    rw [FileTable.insertRow, insertRow]
    cases Decimal.stoul id with
    | none => rfl
    | some p =>
      obtain ⟨value, pos⟩ := p
      simp only [Option.bind_eq_bind, Option.bind_some]
      split <;> rfl
  all_goals rfl

namespace Sim

theorem executeStatement (fuel : Nat) (user : Row) (st : Statement) :
    Sim (On [] fun _ => True) (FileTable.executeStatement fuel user st)
      (DbLab.executeStatement fuel st)
      (fun rows users ft t => rows.map Row.user = users ∧ On [] (fun _ => True) ft t) AfterLine := by
  have hnothing : Sim (On [] fun _ => True) (pure [] : Exec CommandFail FileTable (List Row))
      (pure [] : Exec CommandFail Table (List UserSchema))
      (fun rows users ft t => rows.map Row.user = users ∧ On [] (fun _ => True) ft t) AfterLine :=
    .pure fun _ _ h => ⟨rfl, h⟩
  rw [FileTable.executeStatement, DbLab.executeStatement]
  rcases Tokener.parse st.st with _ | _ | ⟨word, args⟩
  · exact .throw fun _ _ _ hlives => absurd rfl hlives
  · exact .throw fun _ _ _ hlives => absurd rfl hlives
  · refine .ite Iff.rfl (fun _ => executeSelect fuel) fun _ => ?_
    refine .ite Iff.rfl (fun _ => hnothing) fun _ => ?_
    refine .ite Iff.rfl (fun _ => ?_) fun _ => .throw fun _ _ h _ => h
    rw [← map_insertRow user]
    cases FileTable.insertRow user (word :: args) with
    | none => exact .throw fun _ _ h _ => h
    | some row => exact .bind (onTable (insert row.user.id row)) fun _ _ => hnothing

theorem command (fuel : Nat) (user : Row) (input : Str) :
    Sim (On [] fun _ => True) (FileTable.command fuel user input) (DbLab.command fuel input)
      (fun rows users ft t => rows.map Row.user = users ∧ On [] (fun _ => True) ft t) AfterLine := by
  rw [FileTable.command, DbLab.command]
  cases processInput input with
  | error s => exact .throw fun _ _ h _ => h
  | ok st => exact executeStatement fuel user st

end Sim

/-- Both programs print a row in the same place. -/
theorem Sim.turn (fuel : Nat) (o : Option Input) :
    Sim (On [] fun _ => True) (FileTable.turn fuel o) (Table.turn fuel (o.map Input.line))
      (fun rows users ft t =>
        rows.map (Prod.map id Row.user) = users ∧ On [] (fun _ => True) ft t) AfterLine := by
  cases o with
  | none =>
    rw [FileTable.turn, Option.map_none, Table.turn]
    refine .map (onTable (dumpTree fuel)) fun rows users ft t h => ⟨?_, h.2⟩
    rw [← h.1, List.map_map, List.map_map]
    rfl
  | some input =>
    rw [FileTable.turn, Option.map_some, Table.turn]
    refine .map (command fuel input.user input.line) fun rows users ft t h => ⟨?_, h.2⟩
    rw [← h.1, List.map_map, List.map_map]
    rfl

/-! ## Run by run -/

/-- The loop over commands that end alike prints alike. If the one program lives, so does the other. -/
theorem runLoop_alike {ι κ σ τ ω ψ : Type} {P : σ → τ → Prop} {x : ι → Exec CommandFail σ ω}
    {y : κ → Exec CommandFail τ ψ} {f : ω → ψ} {g : ι → κ}
    (hxy : ∀ i, Sim P (x i) (y (g i)) (fun out out' s t => f out = out' ∧ P s t)
      fun e s t => e.ending ≠ .dies → P s t) :
    ∀ (inputs : List ι) {s : σ} {t : τ}, P s t →
      (runLoop x inputs s).1.map (Except.map f) = (runLoop y (inputs.map g) t).1 ∧
        Option.Rel P (runLoop x inputs s).2 (runLoop y (inputs.map g) t).2 := by
  intro inputs
  induction inputs with
  | nil => intro s t h; exact ⟨rfl, .some h⟩
  | cons input inputs ih =>
    intro s t h
    have hend := hxy input s t h
    rw [List.map_cons, runLoop, runLoop]
    rcases hs : exec (x input) s with ⟨r, s'⟩
    rcases ht : exec (y (g input)) t with ⟨r', t'⟩
    rw [hs, ht] at hend
    rcases r with e | out <;> rcases r' with e' | out'
    · obtain ⟨rfl, hP⟩ := hend
      dsimp only
      cases hlives : e.ending with
      | next =>
        obtain ⟨houts, hlast⟩ := ih (hP (by rw [hlives]; decide))
        exact ⟨congrArg (Except.error e :: ·) houts, hlast⟩
      | exit => exact ⟨rfl, .some (hP (by rw [hlives]; decide))⟩
      | dies => exact ⟨rfl, .none⟩
    · exact hend.elim
    · exact hend.elim
    · obtain ⟨hout, hP⟩ := hend
      obtain ⟨houts, hlast⟩ := ih hP
      rw [← hout]
      exact ⟨congrArg (Except.ok (f out) :: ·) houts, hlast⟩

theorem FileTable.run_eq {fuel : Nat} {file : List UInt8} {inputs : List Input}
    {outs : List (Except CommandFail (List (Option Cursor × Row)))} {last : Option FileTable}
    (h : runLoop (turn fuel) (none :: inputs.map some) (openFile file) = (outs, last)) :
    run fuel file inputs = (outs, (last.map closed).getD file) := by
  rw [run, h]

/-- One run. A table that was never closed is still in the file. -/
theorem run_alike (fuel : Nat) {file : List UInt8} {t : Table}
    (h : On [] (fun _ => True) (FileTable.openFile file) t) (inputs : List Input) :
    (FileTable.run fuel file inputs).1.map (Except.map (List.map (Prod.map id Row.user))) =
        (Table.run fuel t (inputs.map Input.line)).1 ∧
      On [] (fun _ => True) (FileTable.openFile (FileTable.run fuel file inputs).2)
        (Table.run fuel t (inputs.map Input.line)).2 := by
  obtain ⟨houts, hlast⟩ := runLoop_alike (x := FileTable.turn fuel) (y := Table.turn fuel)
    (f := List.map (Prod.map id Row.user)) (g := Option.map Input.line) (Sim.turn fuel)
    (none :: inputs.map some) h
  have hlines : (none :: inputs.map some).map (Option.map Input.line) =
      none :: (inputs.map Input.line).map some := by
    rw [List.map_cons, List.map_map, List.map_map]
    rfl
  rw [hlines] at houts hlast
  rw [Table.run]
  rcases hfile : runLoop (FileTable.turn fuel) (none :: inputs.map some) (FileTable.openFile file)
    with ⟨outs, last⟩
  rcases htable : runLoop (Table.turn fuel) (none :: (inputs.map Input.line).map some) t
    with ⟨outs', last'⟩
  rw [hfile, htable] at houts hlast
  rw [FileTable.run_eq hfile]
  refine ⟨houts, ?_⟩
  show On [] _ (FileTable.openFile ((last.map FileTable.closed).getD file)) (last'.getD t)
  cases hlast with
  | none => exact h
  | some hP =>
    rw [Option.map_some, Option.getD_some]
    exact hP.reopen

/-- What holds from any file on that holds a table: each run leaves one the next begins with. -/
theorem runs_on (fuel : Nat) (inputs : List (List Input)) {file : List UInt8} {t : Table}
    (h : On [] (fun _ => True) (FileTable.openFile file) t) :
    (FileTable.runs fuel file inputs).map
        (List.map (Except.map (List.map (Prod.map id Row.user)))) =
      Table.runs fuel t (inputs.map (List.map Input.line)) := by
  induction inputs generalizing file t with
  | nil => rfl
  | cons inputs rest ih =>
    obtain ⟨houts, hnext⟩ := run_alike fuel h inputs
    rw [List.map_cons, FileTable.runs, Table.runs, List.map_cons, houts, ih hnext]

/-- **The program is a table that is kept.** Over a file that begins empty any number of runs print,
line by line, what the same lines print on a table that is never closed: the same rows, byte for
byte in all their members, in the same places, and the same errors.

On the left are the pages as 4096 bytes each, read from a file at the beginning of a run and written
to it at the end; on the right there is one table of structured pages. One run takes a file that
holds a table to one that holds what becomes of it (`run_alike`), and so do many (`runs_on`). -/
theorem runs_eq (fuel : Nat) (inputs : List (List Input)) :
    (FileTable.runs fuel [] inputs).map
        (List.map (Except.map (List.map (Prod.map id Row.user)))) =
      Table.runs fuel Table.openEmpty (inputs.map (List.map Input.line)) :=
  runs_on fuel inputs On.openFile_nil

end CxxLab.DbLab
