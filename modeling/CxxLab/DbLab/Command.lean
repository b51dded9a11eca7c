import CxxLab.DbLab.Rows
import CxxLab.DbLab.Table

/-!
# `db_lab/main.cpp` — the command loop

A line goes through `process_input`, which looks at how it begins, and `execute_statement`, which cuts
it into tokens. An `insert` has four; the second is the id, read by `stoul`, and a row is inserted if
`stoul` read the token to its end.

`stoul` is not the inverse of printing an id. It passes over tabs, takes a sign and has 64 bits, of
which `static_cast` keeps 32, so what is stored for `-1` is 4294967295 and for 4294967296 it is 0.
`storesId_iff` says that these are all the lines that go wrong: a token that `stoul` does not read to
its end, or at all, is refused before the table is touched.
-/

set_option autoImplicit false

namespace CxxLab.DbLab

open CxxLab.Lib Exec

/-! ## Statuses and statements -/

/-- The codes of `status.h` that only the command loop uses. -/
inductive CommandStatus where
  | invalidCmd
  | invalidSt
  | illigleSt
  | empty
  | exit
  deriving DecidableEq, Repr

/-- A `Status` of the command loop that is not OK. -/
structure Status where
  type : CommandStatus
  errMsg : Str
  deriving DecidableEq

/-- Every way a line can end other than with `Status` OK. -/
inductive CommandFail where
  | status (s : Status)
  /-- The call on the table did not return OK. -/
  | table (e : Fail)
  deriving DecidableEq

inductive StatementType where
  | select
  | delete
  | insert
  deriving DecidableEq, Repr

structure Statement where
  type : StatementType
  st : Str
  deriving DecidableEq

/-- `CMD_PREFIX`. -/
def cmdPrefix : Str := lit "."

/-- `CMD_EXIT`. -/
def cmdExit : Str := lit ".exit"

/-- `ST_SELECT`. -/
def stSelect : Str := lit "select"

/-- `ST_DELETE`. -/
def stDelete : Str := lit "delete"

/-- `ST_INSERT`. -/
def stInsert : Str := lit "insert"

/-- A string between quotation marks. -/
def quoted (s : Str) : Str := [34] ++ s ++ [34]

/-! ## From the line to a statement -/

/-- `process_cmd`, which is never OK. -/
def processCmd (cmd : Str) : Status :=
  if cmd = cmdExit then ⟨.exit, lit "Exit!"⟩
  else ⟨.invalidCmd, lit "INVALID_CMD: " ++ quoted cmd⟩

/-- `prepare_statement`. -/
def prepareStatement (st : Str) : Except Status Statement :=
  if stSelect.isPrefixOf st then .ok ⟨.select, st⟩
  else if stDelete.isPrefixOf st then .ok ⟨.delete, st⟩
  else if stInsert.isPrefixOf st then .ok ⟨.insert, st⟩
  else .error ⟨.invalidSt, lit "INVALID_ST: " ++ quoted st⟩

/-- `process_input`. -/
def processInput (input : Str) : Except Status Statement :=
  if input.length = 0 then .error ⟨.empty, lit "Empty input!"⟩
  else if cmdPrefix.isPrefixOf input then .error (processCmd input)
  else prepareStatement input

/-! ## Running a statement -/

/-- A call on the table, from the command loop. -/
def onTable {α : Type} (x : DbM α) : Exec CommandFail Table α := ExceptT.adapt CommandFail.table x

/-- `execute_select`: the rows it prints. -/
def executeSelect (fuel : Nat) : Exec CommandFail Table (List UserSchema) :=
  onTable (Table.scan fuel)

/-- The row `execute_statement` makes of the tokens of an `insert`, if it does not refuse them. All
members of `user` are set, so it does not matter what is in it at first. -/
def insertRow : List Str → Option UserSchema
  | [_, id, username, email] => do
    let (value, pos) ← Decimal.stoul id
    if id.length - pos ≠ 0 then none
    else
      let user := { UserSchema.zero with id := UInt32.ofNat value }
      return (user.setUserName (some username)).setEmail (some email)
  | _ => none

/-- `execute_statement`. Without a token there is no `statements[0]`. -/
def executeStatement (fuel : Nat) (st : Statement) : Exec CommandFail Table (List UserSchema) :=
  match Tokener.parse st.st with
  | some (word :: args) =>
    if word = stSelect then executeSelect fuel
    else if word = stDelete then return []
    else if word = stInsert then
      match insertRow (word :: args) with
      | none => throw (.status ⟨.illigleSt, lit "illigle statement " ++ quoted st.st⟩)
      | some user => do
        onTable (Table.insert user.id user)
        return []
    else throw (.status ⟨.invalidSt, lit "unkown statement " ++ quoted st.st⟩)
  | _ => throw (.table .undefined)

/-- One turn of the loop of `main`. -/
def command (fuel : Nat) (input : Str) : Exec CommandFail Table (List UserSchema) :=
  match processInput input with
  | .error s => throw (.status s)
  | .ok st => executeStatement fuel st

/-! ## An `insert` -/

/-- A line begins with its first token. -/
theorem isPrefixOf_of_parse {line word : Str} {args : List Str}
    (h : Tokener.parse line = some (word :: args)) : word.isPrefixOf line := by
  have hjoin := Tokener.intercalate_dropEmptyLast line
  rw [Option.some.inj ((Tokener.parse_eq line).symm.trans h)] at hjoin
  have hword : word <+: [Tokener.delimiter].intercalate (word :: args) := by
    cases args with
    | nil => simp only [List.intercalate_singleton, List.prefix_rfl]
    | cons a args =>
      rw [List.intercalate_cons_cons, List.append_assoc]
      exact List.prefix_append _ _
  rw [List.isPrefixOf_iff_prefix]
  refine hword.trans ?_
  rw [hjoin]
  split
  · exact List.dropLast_prefix line
  · exact List.prefix_rfl

/-- **A line that is an `insert`** goes to the table as soon as there is a row. -/
theorem exec_command_insert {line : Str} {args : List Str} (fuel : Nat) (t : Table)
    (h : Tokener.parse line = some (stInsert :: args)) :
    exec (command fuel line) t = match insertRow (stInsert :: args) with
      | none => (.error (.status ⟨.illigleSt, lit "illigle statement " ++ quoted line⟩), t)
      | some user => exec (onTable (Table.insert user.id user) >>= fun _ => pure []) t := by
  have hinput : processInput line = .ok ⟨.insert, line⟩ := by
    obtain ⟨rest, rfl⟩ := List.isPrefixOf_iff_prefix.mp (isPrefixOf_of_parse h)
    rfl
  rw [command, hinput]
  show exec (executeStatement fuel ⟨.insert, line⟩) t = _
  rw [executeStatement, h]
  dsimp only
  rw [if_neg (by decide), if_neg (by decide), if_pos rfl]
  cases insertRow (stInsert :: args) with
  | none => rfl
  | some user => rfl

/-! ## Which id is stored -/

/-- A plain decimal numeral below 2^32. -/
def PlainId (s : Str) : Prop := Decimal.Numeral s ∧ Decimal.value s < 2 ^ 32

/-- What an `insert` is for, of one line: if it goes to the table, then with the id that is written in
it; and if there is no id written in it, it is refused and the table is as before. -/
def StoresId (line : Str) : Prop :=
  ∀ args, Tokener.parse line = some (stInsert :: args) →
    (∀ user, insertRow (stInsert :: args) = some user →
      ∃ id, args[0]? = some id ∧ Decimal.Numeral id ∧ Decimal.value id = user.id.toNat) ∧
    ((¬ ∃ id, args[0]? = some id ∧ PlainId id) →
      ∀ fuel t, ∃ s, exec (command fuel line) t = (.error (.status s), t))

theorem insertRow_eq_some {word id un e : Str} {user : UserSchema}
    (h : insertRow [word, id, un, e] = some user) :
    ∃ v pos, Decimal.stoul id = some (v, pos) ∧ id.length - pos = 0 ∧ user.id = UInt32.ofNat v := by
  rw [insertRow] at h
  cases hstoul : Decimal.stoul id with
  | none => rw [hstoul] at h; cases h
  | some p =>
    obtain ⟨v, pos⟩ := p
    rw [hstoul] at h
    by_cases hpos : id.length - pos = 0
    · refine ⟨v, pos, rfl, hpos, ?_⟩
      simp only [Option.bind_eq_bind, Option.bind_some, hpos, ne_eq, not_true_eq_false, if_false] at h
      cases h
      rfl
    · simp only [Option.bind_eq_bind, Option.bind_some, ne_eq, hpos, not_false_eq_true, if_true] at h
      cases h

theorem insertRow_of_stoul {word id un e : Str} {v : Nat}
    (h : Decimal.stoul id = some (v, id.length)) :
    insertRow [word, id, un, e] =
      some (({ UserSchema.zero with id := UInt32.ofNat v }.setUserName (some un)).setEmail
        (some e)) := by
  rw [insertRow, h, Option.bind_eq_bind, Option.bind_some]
  dsimp only
  rw [Nat.sub_self]
  rfl

theorem insertRow_signed {word id un e : Str} (h : ∃ ds, Decimal.Signed id ds ∧
    Decimal.Numeral ds ∧ Decimal.value ds < 2 ^ 64) :
    ∃ user, insertRow [word, id, un, e] = some user := by
  obtain ⟨ds, ⟨ws, sign, rfl, hws, hsign⟩, hds, hlt⟩ := h
  exact ⟨_, insertRow_of_stoul (Decimal.stoul_signed hws hsign hds hlt)⟩

/-- **Which lines store the id that is written in them**: all but those with four tokens of which
the second is a number to `stoul`, but not a plain one below 2^32.

`stoul` skips white space and a sign in front of the digits, negates for a minus, and stops where
the digits stop; and what it returns is cut to 32 bits. So there are lines of which something else
is stored than is written there, and there are lines that are not numbers at all and are refused, as
they should be. -/
theorem storesId_iff (line : Str) :
    StoresId line ↔ ∀ id un e, Tokener.parse line = some [stInsert, id, un, e] →
      (∃ ds, Decimal.Signed id ds ∧ Decimal.Numeral ds ∧ Decimal.value ds < 2 ^ 64) → PlainId id := by
  constructor
  · intro h id un e hparse hsigned
    obtain ⟨user, hrow⟩ := @insertRow_signed stInsert id un e hsigned
    obtain ⟨id', hid, hnum, hval⟩ := (h _ hparse).1 user hrow
    cases hid
    exact ⟨hnum, hval ▸ user.id.toNat_lt⟩
  · intro h args hparse
    have hrow : ∀ user, insertRow (stInsert :: args) = some user →
        ∃ id, args[0]? = some id ∧ PlainId id ∧ user.id = UInt32.ofNat (Decimal.value id) := by
      intro user hrow
      match args, hrow with
      | [id, un, e], hrow =>
        obtain ⟨v, pos, hstoul, hpos, hid⟩ := insertRow_eq_some hrow
        have hplain := h id un e hparse (Decimal.signed_of_stoul hstoul hpos)
        cases hstoul.symm.trans (Decimal.stoul_numeral hplain.1 (Nat.lt_trans hplain.2 (by decide)))
        exact ⟨id, rfl, hplain, hid⟩
    refine ⟨fun user huser => ?_, fun hno fuel t => ?_⟩
    · obtain ⟨id, hid, hplain, huid⟩ := hrow user huser
      refine ⟨id, hid, hplain.1, ?_⟩
      rw [huid, UInt32.toNat_ofNat', Nat.mod_eq_of_lt hplain.2]
    · rw [exec_command_insert fuel t hparse]
      cases huser : insertRow (stInsert :: args) with
      | none => exact ⟨_, rfl⟩
      | some user =>
        obtain ⟨id, hid, hplain, -⟩ := hrow user huser
        exact absurd ⟨id, hid, hplain⟩ hno

/-- 2^32 is stored as 0. -/
theorem not_storesId_two_pow : ¬ StoresId (lit "insert 4294967296 a b") := by
  intro h
  have hparse : Tokener.parse (lit "insert 4294967296 a b") =
      some [stInsert, lit "4294967296", lit "a", lit "b"] := by
    rw [Tokener.parse_eq]
    decide
  have hnum : Decimal.Numeral (lit "4294967296") :=
    ⟨by decide, List.all_eq_true.mp (by decide)⟩
  obtain ⟨id, hid, -, hval⟩ :=
    (h _ hparse).1 _ (insertRow_of_stoul (Decimal.stoul_numeral hnum (by decide)))
  cases hid
  exact absurd hval (by decide)

end CxxLab.DbLab
