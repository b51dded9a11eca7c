import CxxLab.Lib.Hoare
import CxxLab.DuckdbLab.Tpcc

/-!
# `duckdb_lab/driver.cpp` — the five transactions

A connection is the database as it sees it and, within a transaction, the one there was at
`START TRANSACTION`, which a rollback brings back. What becomes of a query is given from outside,
one `Outcome` for each call on the connection: it does what it says, it reports an error, or it
throws. A query that is no statement reports an error in any case, and so `CHECK_ROLLBACK` has
three ways to go on.

Not all of DuckDB is as careful as that. `DoDelivery` does not look at what became of its
`START TRANSACTION`, and without one every statement is a transaction of its own; `Commit` throws
where a query would report. To read a row that is not there, or an integer that is too big for an
`ID_TYPE`, is to throw.

The driver's own arithmetic is on `int`, and wraps.
-/

set_option autoImplicit false

namespace CxxLab.DuckdbLab

open CxxLab.Lib Exec

/-! ## The connection -/

/-- What becomes of a call on the connection. -/
inductive Outcome where
  | success
  | error
  | throws
  deriving DecidableEq, Repr

/-- A connection in the hands of a task. -/
structure Session where
  db : Database
  /-- The database at `START TRANSACTION`, within a transaction. -/
  begun : Option Database
  /-- What is to become of the calls still to come. All that are not listed succeed. -/
  outcomes : List Outcome
  /-- `TpccContext::has_rollbacked_`. -/
  hasRollbacked : Bool

/-- How a transaction ends early. -/
inductive Stop where
  /-- `return false;` -/
  | returned
  | exception
  deriving DecidableEq, Repr

abbrev DriverM := Exec Stop Session

def nextOutcome : DriverM Outcome := do
  let s ← get
  modify fun s => { s with outcomes := s.outcomes.tail }
  return s.outcomes.headD .success

namespace Session

/-- `Connection::Rollback`. -/
def rollback (s : Session) : Session := { s with db := s.begun.getD s.db, begun := none }

/-- `Driver::ForceRollBack`. -/
def forceRollBack (s : Session) : Session := { s.rollback with hasRollbacked := true }

end Session

/-- `conn_->Query(query)`: nothing if the result is not a success. -/
def connQuery {α : Type} (statement : Statement α) : DriverM (Option α) := do
  match ← nextOutcome with
  | .throws => throw .exception
  | .error => return none
  | .success =>
    let s ← get
    match statement s.db with
    | none => return none
    | some (a, db) =>
      modify fun s => { s with db := db }
      return some a

/-- `conn_->Query("START TRANSACTION")`: whether the result is a success. -/
def connStart : DriverM Bool := do
  match ← nextOutcome with
  | .throws => throw .exception
  | .error => return false
  | .success =>
    let s ← get
    if s.begun.isSome then return false
    modify fun s => { s with begun := some s.db }
    return true

/-- `conn_->Commit()`. -/
def connCommit : DriverM Unit := do
  match ← nextOutcome with
  | .throws | .error => throw .exception
  | .success =>
    let s ← get
    if s.begun.isNone then throw .exception
    modify fun s => { s with begun := none }

/-- `CHECK_ROLLBACK`, of a result that is not a success. -/
def checkRollback {α : Type} : DriverM α := do
  modify Session.forceRollBack
  throw .returned

/-- A query and the `CHECK_ROLLBACK` behind it. -/
def query {α : Type} (statement : Statement α) : DriverM α := do
  match ← connQuery statement with
  | some a => return a
  | none => checkRollback

/-- `START TRANSACTION` and the `CHECK_ROLLBACK` behind it. -/
def startTransaction : DriverM Unit := do
  if !(← connStart) then checkRollback

/-- `GetRow` and `GetValue` at a row. -/
def getRow {α : Type} (rows : List α) (i : Nat) : DriverM α :=
  match rows[i]? with
  | some row => return row
  | none => throw .exception

/-- `GetValue<ID_TYPE>` of an integer. -/
def getId (v : Int) : DriverM IdType :=
  if Int32.minValue.toInt ≤ v ∧ v ≤ Int32.maxValue.toInt then return Int32.ofInt v
  else throw .exception

/-! ## The transactions -/

variable {F : Type} (p : Platform F)

structure DeliveryContext where
  wId : IdType
  oCarrierId : IdType
  olDeliveryD : String

/-- The body of the loop in `DoDelivery`. -/
def deliverDistrict (ctx : DeliveryContext) (dId : IdType) : DriverM Unit := do
  match ← query (deliveryGetNewOrder dId ctx.wId) with
  | [] => return
  | noOIdVal :: _ =>
    let noOId ← getId noOIdVal
    let cIdVal ← getRow (← query (deliveryGetCid noOId dId ctx.wId)) 0
    let olTotalVal ← query (deliverySumOlAmount noOId dId ctx.wId)
    query (deliveryDeleteNewOrder dId ctx.wId noOId)
    query (deliveryUpdateOrders ctx.oCarrierId noOId dId ctx.wId)
    query (deliveryUpdateOrderLine ctx.olDeliveryD noOId dId ctx.wId)
    match p.sumToId olTotalVal with
    | none => throw .exception
    | some olTotal =>
      let cId ← getId cIdVal
      query (deliveryUpdateCustomer olTotal cId dId ctx.wId)

/-- The numbers of the districts, to `DISTRICTS_PER_WAREHOUSE`. -/
def districtIds : List IdType := [1, 2, 3, 4, 5, 6, 7, 8, 9, 10]

/-- `Driver::DoDelivery`. -/
def doDelivery (ctx : DeliveryContext) : DriverM Unit := do
  let _ ← connStart
  districtIds.forM (deliverDistrict p ctx)
  connCommit

/-- `NewOrderContext`. The driver reads the other two vectors at the indices of `i_ids`. -/
structure NewOrderContext where
  wId : IdType
  dId : IdType
  cId : IdType
  oEntryD : String
  iIds : List IdType
  iWIds : List IdType
  iQtys : List IdType
  allLocal : Bool
  iWIds_length : iIds.length ≤ iWIds.length
  iQtys_length : iIds.length ≤ iQtys.length

/-- The loop over `i_ids` that collects the items. -/
def getItems : List IdType → DriverM (List Item)
  | [] => return []
  | iId :: iIds => do
    let item ← getRow (← query (newOrderGetItemInfo iId)) 0
    return item :: (← getItems iIds)

/-- What is made of a stock row by an order of some of it. -/
def newQuantity (sQuantity olQuantity : IdType) : IdType :=
  if olQuantity + 10 ≤ sQuantity then sQuantity - olQuantity else sQuantity + 91 - olQuantity

/-- The body of the second loop over `i_ids`, with what the vectors have at its index. -/
def createLine (ctx : NewOrderContext) (dNextOId : IdType) (olIId olSupplyWId olQuantity : IdType)
    (item : Item) : DriverM Unit := do
  let olNumber := olIId + 1
  let iPrice := p.ofDecimal item.iPrice
  -- `GetRow` gives a row with all its columns or none, so "No STOCK record" is never reached.
  let (stock, sDistXx) ← getRow (← query (newOrderGetStockInfo ctx.dId olIId olSupplyWId)) 0
  let sQuantity ← getId stock.sQuantity
  let sYtd ← getId stock.sYtd
  let sOrderCnt ← getId stock.sOrderCnt
  let sRemoteCnt ← getId stock.sRemoteCnt
  let sRemoteCnt := if olSupplyWId ≠ ctx.wId then sRemoteCnt + 1 else sRemoteCnt
  query (newOrderUpdateStock (newQuantity sQuantity olQuantity) (sYtd + olQuantity) (sOrderCnt + 1)
    sRemoteCnt olIId olSupplyWId)
  let olAmount := p.mul olQuantity iPrice
  query (newOrderCreateOrderLine p dNextOId ctx.dId ctx.wId olNumber olIId olSupplyWId ctx.oEntryD
    olQuantity (p.toId olAmount) sDistXx)

/-- `Driver::DoNewOrder`. -/
def doNewOrder (ctx : NewOrderContext) : DriverM Unit := do
  startTransaction
  let items ← getItems ctx.iIds
  let _ ← query (newOrderGetWarehouseTaxRate ctx.wId)
  let (_, dNextOIdVal) ← getRow (← query (newOrderGetDistrict ctx.dId ctx.wId)) 0
  let dNextOId ← getId dNextOIdVal
  let _ ← query (newOrderGetCustomer ctx.wId ctx.dId ctx.cId)
  query (newOrderIncrementNextOrderId (dNextOId + 1) ctx.dId ctx.wId)
  query (newOrderCreateOrder dNextOId ctx.dId ctx.wId ctx.cId ctx.oEntryD 0
    (Int32.ofNat ctx.iIds.length) (if ctx.allLocal then 1 else 0))
  query (newOrderCreateNewOrder dNextOId ctx.dId ctx.wId)
  ((ctx.iIds.zip (ctx.iWIds.zip ctx.iQtys)).zip items).forM
    fun ((iId, iWId, iQty), item) => createLine p ctx dNextOId iId iWId iQty item
  connCommit

structure PaymentContext (F : Type) where
  wId : IdType
  dId : IdType
  hAmount : F
  cWId : IdType
  cDId : IdType
  cId : IdType
  cLast : String
  hDate : String

/-- The customer of a payment, and what `ctx->c_id` is from then on. The middle of no rows is no
row. -/
def paymentCustomer (ctx : PaymentContext F) : DriverM (IdType × Customer) := do
  if ctx.cLast.isEmpty then
    let customer ← getRow (← query (paymentGetCustomerByCustomerId ctx.wId ctx.dId ctx.cId)) 0
    return (ctx.cId, customer)
  else
    let rows ← query (paymentGetCustomerByLastName ctx.wId ctx.dId ctx.cLast)
    let customer ← getRow rows ((rows.length - 1) / 2)
    return (← getId customer.cId, customer)

/-- `Driver::DoPayment`. -/
def doPayment (ctx : PaymentContext F) : DriverM Unit := do
  startTransaction
  let (cId, customer) ← paymentCustomer ctx
  let cBalance := p.sub (p.ofDecimal customer.cBalance) ctx.hAmount
  let cYtdPayment := p.add (p.ofDecimal customer.cYtdPayment) ctx.hAmount
  let cPaymentCnt := (← getId customer.cPaymentCnt) + 1
  let warehouse ← getRow (← query (paymentGetWarehouse ctx.wId)) 0
  let district ← getRow (← query (paymentGetDistrict ctx.wId ctx.dId)) 0
  query (paymentUpdateWarehouseBalance p ctx.hAmount ctx.wId)
  query (paymentUpdateDistrictBalance p ctx.hAmount ctx.wId ctx.dId)
  if customer.cCredit = "BC" then
    -- What is put together for `c_data` is overwritten by the empty string.
    query (paymentUpdateBCCustomer p cBalance cYtdPayment cPaymentCnt "" ctx.cWId ctx.cDId cId)
  else
    query (paymentUpdateGCCustomer p cBalance cYtdPayment cPaymentCnt ctx.cWId ctx.cDId cId)
  let hData := warehouse.wName ++ "    " ++ district.dName
  query (paymentInsertHistory p cId ctx.cDId ctx.cWId ctx.dId ctx.wId ctx.hDate ctx.hAmount hData)
  connCommit

structure OrderStatusContext where
  cId : IdType
  wId : IdType
  dId : IdType
  cLast : String

/-- The first part of `DoOrderStatus`: what `ctx->c_id` is from then on. -/
def orderStatusCustomer (ctx : OrderStatusContext) : DriverM IdType := do
  if ctx.cLast.isEmpty then
    let _ ← query (orderStatusGetCustomerByCustomerId ctx.wId ctx.dId ctx.cId)
    return ctx.cId
  else
    let rows ← query (orderStatusGetCustomerByLastName ctx.wId ctx.dId ctx.cLast)
    let customer ← getRow rows ((rows.length - 1) / 2)
    getId customer.cId

/-- `Driver::DoOrderStatus`. -/
def doOrderStatus (ctx : OrderStatusContext) : DriverM Unit := do
  startTransaction
  let cId ← orderStatusCustomer ctx
  match ← query (orderStatusGetLastOrder ctx.wId ctx.dId cId) with
  | [] => connCommit
  | order :: _ =>
    let oId ← getId order.oId
    let _ ← query (orderStatusGetOrderLines ctx.wId ctx.dId oId)
    connCommit

structure StockLevelContext where
  wId : IdType
  dId : IdType
  threshold : IdType

/-- `Driver::DoStockLevel`. -/
def doStockLevel (ctx : StockLevelContext) : DriverM Unit := do
  startTransaction
  let oIdVal ← getRow (← query (stockLevelGetOid ctx.wId ctx.dId)) 0
  let oId ← getId oIdVal
  let _ ← query (stockLevelGetStockCount ctx.wId ctx.dId oId (oId - 20) ctx.wId ctx.threshold)
  connCommit

/-! ## Tasks -/

/-- `TpccContext`, by its type. -/
inductive TpccContext (F : Type) where
  | stockLevel (ctx : StockLevelContext)
  | delivery (ctx : DeliveryContext)
  | orderStatus (ctx : OrderStatusContext)
  | payment (ctx : PaymentContext F)
  | newOrder (ctx : NewOrderContext)

/-- The transaction of a context. -/
def doTransaction : TpccContext F → DriverM Unit
  | .stockLevel ctx => doStockLevel ctx
  | .delivery ctx => doDelivery p ctx
  | .orderStatus ctx => doOrderStatus ctx
  | .payment ctx => doPayment p ctx
  | .newOrder ctx => doNewOrder p ctx

/-- The `try` of `Task::Run`, and its `catch`. -/
def runTransaction (ctx : TpccContext F) (s : Session) : Session :=
  match exec (doTransaction p ctx) s with
  | (.error .exception, s') => s'.forceRollBack
  | (_, s') => s'

/-- A task on the connection, with what is to become of its queries. -/
def Session.runTask (s : Session) (task : TpccContext F × List Outcome) : Session :=
  runTransaction p task.1 { s with outcomes := task.2, hasRollbacked := false }

/-! ## Rules

What a transaction does is told by what the database is between two of its calls. `InTx d₀ P` says
that the transaction began in `d₀` and that `P` holds of the database by now, and `Aborted d₀` that
it is over, or will be with the next rollback, and `d₀` is back. -/

/-- A connection with no transaction. -/
def Idle (d₀ : Database) (s : Session) : Prop := s.begun = none ∧ s.db = d₀

def InTx (d₀ : Database) (P : Database → Prop) (s : Session) : Prop := s.begun = some d₀ ∧ P s.db

def Aborted (d₀ : Database) : Stop → Session → Prop
  | .returned, s => Idle d₀ s
  | .exception, s => s.begun.getD s.db = d₀

/-- An assertion that does not depend on what is to become of the calls still to come, that a
failed call leaves with `E`. -/
structure Stable (I : Session → Prop) (E : Stop → Session → Prop) : Prop where
  outcomes : ∀ s outcomes, I s → I { s with outcomes := outcomes }
  rollback : ∀ s, I s → E .returned s.forceRollBack
  throws : ∀ s, I s → E .exception s

theorem InTx.stable (d₀ : Database) (P : Database → Prop) : Stable (InTx d₀ P) (Aborted d₀) where
  outcomes := fun _ _ h => h
  rollback := by
    intro s hs
    exact ⟨rfl, by simp [Session.forceRollBack, Session.rollback, hs.1]⟩
  throws := by
    intro s hs
    simp [Aborted, hs.1]

theorem Idle.stable (d₀ : Database) : Stable (Idle d₀) (Aborted d₀) where
  outcomes := fun _ _ h => h
  rollback := by
    intro s hs
    exact ⟨rfl, by simp [Session.forceRollBack, Session.rollback, hs.1, hs.2]⟩
  throws := by
    intro s hs
    simp [Aborted, hs.1, hs.2]

section Rules

variable {α : Type} {I : Session → Prop} {E : Stop → Session → Prop} {d₀ : Database}
  {P : Database → Prop}

theorem Stable.nextOutcome (hI : Stable I E) : Triple I nextOutcome (fun _ => I) E := by
  refine Triple.get_bind fun s hs => ?_
  refine (Triple.modify (Q := fun _ => I) ?_).bind fun _ => .pure fun _ => id
  rintro s rfl
  exact hI.outcomes s _ hs

/-- The rule for a call on the connection: an exception goes on to the caller. -/
theorem Stable.connCall (hI : Stable I E) {f : Outcome → DriverM α} {Q : α → Session → Prop}
    (hthrows : f .throws = throw .exception) (herror : Triple I (f .error) Q E)
    (hsuccess : Triple I (f .success) Q E) : Triple I (DuckdbLab.nextOutcome >>= f) Q E := by
  refine hI.nextOutcome.bind fun outcome => ?_
  cases outcome with
  | throws =>
    rw [hthrows]
    exact .throw hI.throws
  | error => exact herror
  | success => exact hsuccess

/-- **The rule for queries**: it is about the one that does what it says. -/
theorem Stable.query (hI : Stable I E) {statement : Statement α} {Q : α → Session → Prop}
    (h : ∀ s a db, I s → statement s.db = some (a, db) → Q a { s with db := db }) :
    Triple I (query statement) Q E := by
  have hcheck : ∀ {Q : α → Session → Prop}, Triple I checkRollback Q E :=
    (Triple.modify (Q := fun _ => E .returned) hI.rollback).bind fun _ => .throw fun _ => id
  have hconn : Triple I (connQuery statement) (fun r s => match r with
      | some a => Q a s
      | none => I s) E := by
    refine hI.connCall rfl ?_ ?_
    · exact .pure fun _ => id
    refine Triple.get_bind fun s hs => ?_
    cases hst : statement s.db with
    | none =>
      refine .pure ?_
      rintro s rfl
      exact hs
    | some r =>
      obtain ⟨a, db⟩ := r
      refine (Triple.modify (Q := fun _ => Q a) ?_).bind fun _ => .pure fun _ => id
      rintro s rfl
      exact h s a db hs hst
  refine hconn.bind fun r => ?_
  cases r with
  | some a => exact .pure fun _ => id
  | none => exact hcheck

theorem Stable.getRow (hI : Stable I E) (rows : List α) (i : Nat) :
    Triple I (getRow rows i) (fun a s => rows[i]? = some a ∧ I s) E := by
  unfold DuckdbLab.getRow
  split
  · rename_i hrow
    exact .pure fun _ hs => ⟨hrow, hs⟩
  · exact .throw hI.throws

/-- An integer that can be read is the one it was. -/
theorem Stable.getId (hI : Stable I E) (v : Int) :
    Triple I (getId v) (fun a s => a.toInt = v ∧ I s) E := by
  refine Triple.ite (fun hv => .pure fun s hs => ⟨?_, hs⟩) fun _ => .throw hI.throws
  have hmin := hv.1
  have hmax := hv.2
  rw [Int32.toInt_minValue] at hmin
  rw [Int32.toInt_maxValue] at hmax
  exact Int32.toInt_ofInt_of_le hmin (by omega)

theorem pull {Q : α → Session → Prop} {φ : Prop} {x : DriverM α} (h : φ → Triple I x Q E) :
    Triple (fun s => φ ∧ I s) x Q E :=
  fun s hs => h hs.1 s hs.2

theorem query_inTx {statement : Statement α} {Q : α → Database → Prop}
    (h : ∀ d a d', P d → statement d = some (a, d') → Q a d') :
    Triple (InTx d₀ P) (query statement) (fun a => InTx d₀ (Q a)) (Aborted d₀) :=
  (InTx.stable d₀ P).query fun s a db hs hst => ⟨hs.1, h s.db a db hs.2 hst⟩

theorem startTransaction_idle :
    Triple (Idle d₀) startTransaction (fun _ => InTx d₀ (· = d₀)) (Aborted d₀) := by
  have hI := Idle.stable d₀
  have hconn : Triple (Idle d₀) connStart (fun started s =>
      if started then InTx d₀ (· = d₀) s else Idle d₀ s) (Aborted d₀) := by
    refine hI.connCall rfl ?_ ?_
    · exact .pure fun _ => id
    refine Triple.get_bind fun s hs => ?_
    rw [hs.1]
    refine (Triple.modify (Q := fun _ => InTx d₀ (· = d₀)) ?_).bind fun _ => .pure fun _ => id
    rintro s rfl
    exact ⟨by rw [hs.2], hs.2⟩
  refine hconn.bind fun started => ?_
  cases started with
  | true => exact .pure fun _ => id
  | false =>
    exact (Triple.modify (Q := fun _ => Aborted d₀ .returned) hI.rollback).bind fun _ =>
      .throw fun _ => id

/-- `Commit` leaves what there is. -/
theorem connCommit_inTx :
    Triple (InTx d₀ P) connCommit (fun _ s => s.begun = none ∧ P s.db) (Aborted d₀) := by
  have hI := InTx.stable d₀ P
  refine hI.connCall rfl ?_ ?_
  · exact .throw hI.throws
  refine Triple.get_bind fun s hs => ?_
  rw [hs.1]
  refine Triple.modify ?_
  rintro s rfl
  exact ⟨rfl, hs.2⟩

end Rules

end CxxLab.DuckdbLab
