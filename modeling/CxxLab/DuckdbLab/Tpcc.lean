import CxxLab.Lib.Table
import Mathlib.Algebra.Field.Rat

/-!
# `duckdb_lab/templates.h` — the statements

Every function of `templates.h` writes one SQL statement. What stands here under its name is what
the statement means: the rows a `SELECT` gives, the database a write leaves, or neither if the
text is not a statement at all. The rows have the columns that some statement selects and the
driver reads, or that a statement sets or compares; warehouses, districts and customers have their
primary keys.

`ID_TYPE` is `int`; an integer column holds an integer, and which of them a read can give is the
driver's matter. Decimals are exact. Floats and the casts of DuckDB are a parameter, `Platform`:
nothing below depends on what they do.

Two of the templates write text that is not what it was meant to be. `NEWORDER_GetStockInfo` pads
the number of a district on the right, so district 1 reads `S_DIST_10` and district 2 the column
`S_DIST_20` that is not there; and `NEWORDER_CreateOrderLine` has its date without quotes.
-/

set_option autoImplicit false

namespace CxxLab.DuckdbLab

open CxxLab.Lib

/-! ## Types -/

/-- `ID_TYPE`. -/
abbrev IdType := Int32

/-- Floats, and what DuckDB makes of values and texts that the driver leaves to it. -/
structure Platform (F : Type) where
  /-- `GetValue<float>` of a decimal. -/
  ofDecimal : ℚ → F
  add : F → F → F
  sub : F → F → F
  /-- A quantity times a price. -/
  mul : IdType → F → F
  /-- A float where an `ID_TYPE` is expected. -/
  toId : F → IdType
  /-- The number that `<<` writes for a float. Not every float is written as one. -/
  written : F → Option ℚ
  /-- `GetValue<ID_TYPE>` of a `SUM`, which is null over no rows. -/
  sumToId : Option ℚ → Option IdType
  /-- A text that stands in a statement without quotes. -/
  expression : String → Option String

structure Item where
  iId : Int
  iPrice : ℚ
  iName : String
  iData : String

structure Warehouse where
  wId : Int
  wName : String
  wTax : ℚ
  wYtd : ℚ

structure District where
  dId : Int
  dWId : Int
  dName : String
  dTax : ℚ
  dYtd : ℚ
  dNextOId : Int

/-- The primary key of DISTRICT. -/
def District.key (d : District) : Int × Int := (d.dWId, d.dId)

structure Customer where
  cId : Int
  cDId : Int
  cWId : Int
  cFirst : String
  cLast : String
  cCredit : String
  cDiscount : ℚ
  cBalance : ℚ
  cYtdPayment : ℚ
  cPaymentCnt : Int
  cData : String

/-- The primary key of CUSTOMER. -/
def Customer.key (c : Customer) : Int × Int × Int := (c.cWId, c.cDId, c.cId)

structure Stock where
  sIId : Int
  sWId : Int
  sQuantity : Int
  sData : String
  sYtd : Int
  sOrderCnt : Int
  sRemoteCnt : Int
  /-- The columns `S_DIST_01` to `S_DIST_10`, by the end of their name. -/
  sDist : String → Option String

structure Order where
  oId : Int
  oDId : Int
  oWId : Int
  oCId : Int
  oEntryD : String
  oCarrierId : Int
  oOlCnt : Int
  oAllLocal : Int

structure NewOrder where
  noOId : Int
  noDId : Int
  noWId : Int

structure OrderLine where
  olOId : Int
  olDId : Int
  olWId : Int
  olNumber : Int
  olIId : Int
  olSupplyWId : Int
  olDeliveryD : String
  olQuantity : Int
  olAmount : ℚ
  olDistInfo : String

/-- HISTORY, in the order of its columns. -/
structure History where
  hCId : Int
  hCDId : Int
  hCWId : Int
  hDId : Int
  hWId : Int
  hDate : String
  hAmount : ℚ
  hData : String

structure Database where
  item : List Item
  warehouse : Table Warehouse Warehouse.wId
  district : Table District District.key
  customer : Table Customer Customer.key
  stock : List Stock
  orders : List Order
  newOrder : List NewOrder
  orderLine : List OrderLine
  history : List History

/-- A statement: what it gives and the database after it, unless it is an error. -/
abbrev Statement (α : Type) := Database → Option (α × Database)

/-- A `SELECT`. -/
def reads {α : Type} (f : Database → α) : Statement α := fun db => some (f db, db)

/-- Any other statement. -/
def writes (f : Database → Database) : Statement Unit := fun db => some ((), f db)

/-! ## Delivery -/

def deliveryGetNewOrder (noDId noWId : IdType) : Statement (List Int) :=
  reads fun db => ((db.newOrder.filter fun r =>
    r.noDId = noDId.toInt ∧ r.noWId = noWId.toInt ∧ -1 < r.noOId).map (·.noOId)).take 1

def deliveryDeleteNewOrder (noDId noWId noOId : IdType) : Statement Unit :=
  writes fun db => { db with newOrder := db.newOrder.filter fun r =>
    !(r.noDId = noDId.toInt ∧ r.noWId = noWId.toInt ∧ r.noOId = noOId.toInt) }

def deliveryGetCid (oId oDId oWId : IdType) : Statement (List Int) :=
  reads fun db => (db.orders.filter fun r =>
    r.oId = oId.toInt ∧ r.oDId = oDId.toInt ∧ r.oWId = oWId.toInt).map (·.oCId)

def deliveryUpdateOrders (oCarrierId oId oDId oWId : IdType) : Statement Unit :=
  writes fun db => { db with
    orders := updateWhere
      (fun r => r.oId = oId.toInt ∧ r.oDId = oDId.toInt ∧ r.oWId = oWId.toInt)
      (fun r => { r with oCarrierId := oCarrierId.toInt }) db.orders }

def deliveryUpdateOrderLine (olDeliveryDate : String) (olOId olDId olWId : IdType) :
    Statement Unit :=
  writes fun db => { db with
    orderLine := updateWhere
      (fun r => r.olOId = olOId.toInt ∧ r.olDId = olDId.toInt ∧ r.olWId = olWId.toInt)
      (fun r => { r with olDeliveryD := olDeliveryDate }) db.orderLine }

def deliverySumOlAmount (olOId olDId olWId : IdType) : Statement (Option ℚ) :=
  reads fun db =>
    match db.orderLine.filter fun r =>
      r.olOId = olOId.toInt ∧ r.olDId = olDId.toInt ∧ r.olWId = olWId.toInt with
    | [] => none
    | rows => some (rows.map (·.olAmount)).sum

def deliveryUpdateCustomer (olTotal cId cDId cWId : IdType) : Statement Unit :=
  writes fun db => { db with
    customer := db.customer.update
      (fun r => r.cId = cId.toInt ∧ r.cDId = cDId.toInt ∧ r.cWId = cWId.toInt)
      (fun r => { r with cBalance := r.cBalance + olTotal.toInt }) fun _ => rfl }

/-! ## New-Order -/

def newOrderGetWarehouseTaxRate (wId : IdType) : Statement (List ℚ) :=
  reads fun db => (db.warehouse.rows.filter fun r => r.wId = wId.toInt).map (·.wTax)

/-- `D_TAX` and `D_NEXT_O_ID`. -/
def newOrderGetDistrict (dId dWId : IdType) : Statement (List (ℚ × Int)) :=
  reads fun db => (db.district.rows.filter fun r =>
    r.dId = dId.toInt ∧ r.dWId = dWId.toInt).map fun r => (r.dTax, r.dNextOId)

def newOrderIncrementNextOrderId (dNextOId dId dWId : IdType) : Statement Unit :=
  writes fun db => { db with
    district := db.district.update
      (fun r => r.dId = dId.toInt ∧ r.dWId = dWId.toInt)
      (fun r => { r with dNextOId := dNextOId.toInt }) fun _ => rfl }

/-- `C_DISCOUNT`, `C_LAST` and `C_CREDIT`. -/
def newOrderGetCustomer (cWId cDId cId : IdType) : Statement (List (ℚ × String × String)) :=
  reads fun db => (db.customer.rows.filter fun r =>
    r.cWId = cWId.toInt ∧ r.cDId = cDId.toInt ∧ r.cId = cId.toInt).map fun r =>
      (r.cDiscount, r.cLast, r.cCredit)

def newOrderCreateOrder (dNextOId dId wId cId : IdType) (oEntryD : String)
    (oCarrierId oOlCnt oAllLocal : IdType) : Statement Unit :=
  writes fun db => { db with orders := db.orders ++ [{
    oId := dNextOId.toInt, oDId := dId.toInt, oWId := wId.toInt, oCId := cId.toInt
    oEntryD := oEntryD, oCarrierId := oCarrierId.toInt, oOlCnt := oOlCnt.toInt
    oAllLocal := oAllLocal.toInt }] }

def newOrderCreateNewOrder (oId noDId noWId : IdType) : Statement Unit :=
  writes fun db => { db with newOrder := db.newOrder ++ [{
    noOId := oId.toInt, noDId := noDId.toInt, noWId := noWId.toInt }] }

def newOrderGetItemInfo (olIId : IdType) : Statement (List Item) :=
  reads fun db => db.item.filter fun r => r.iId = olIId.toInt

/-- The end of a column's name: `std::left << std::setfill('0') << std::setw(2) << d_id`. -/
def stockDistName (dId : IdType) : String :=
  let digits := toString dId
  digits ++ String.ofList (List.replicate (2 - digits.length) '0')

/-- The row, with its column for the district. A column that a row does not have no row has. -/
def newOrderGetStockInfo (dId olIId olSupplyWId : IdType) : Statement (List (Stock × String)) :=
  fun db => do
    let rows ← (db.stock.filter fun r =>
      r.sIId = olIId.toInt ∧ r.sWId = olSupplyWId.toInt).mapM fun r =>
        (r.sDist (stockDistName dId)).map (r, ·)
    return (rows, db)

def newOrderUpdateStock (sQuantity sYtd sOrderCnt sRemoteCnt olIId olSupplyWId : IdType) :
    Statement Unit :=
  writes fun db => { db with
    stock := updateWhere
      (fun r => r.sIId = olIId.toInt ∧ r.sWId = olSupplyWId.toInt)
      (fun r => { r with
        sQuantity := sQuantity.toInt, sYtd := sYtd.toInt, sOrderCnt := sOrderCnt.toInt
        sRemoteCnt := sRemoteCnt.toInt }) db.stock }

variable {F : Type} (p : Platform F)

def newOrderCreateOrderLine (oId dId wId olNumber olIId olSupplyWId : IdType) (oEntryD : String)
    (olQuantity olAmount : IdType) (olDistInfo : String) : Statement Unit :=
  fun db => do
    let date ← p.expression oEntryD
    return ((), { db with orderLine := db.orderLine ++ [{
      olOId := oId.toInt, olDId := dId.toInt, olWId := wId.toInt, olNumber := olNumber.toInt
      olIId := olIId.toInt, olSupplyWId := olSupplyWId.toInt, olDeliveryD := date
      olQuantity := olQuantity.toInt, olAmount := olAmount.toInt, olDistInfo := olDistInfo }] })

/-! ## Order-Status -/

def orderStatusGetCustomerByCustomerId (wId dId cId : IdType) : Statement (List Customer) :=
  reads fun db => db.customer.rows.filter fun r =>
    r.cWId = wId.toInt ∧ r.cDId = dId.toInt ∧ r.cId = cId.toInt

def orderStatusGetCustomerByLastName (wId dId : IdType) (cLast : String) :
    Statement (List Customer) :=
  reads fun db => (db.customer.rows.filter fun r =>
    r.cWId = wId.toInt ∧ r.cDId = dId.toInt ∧ r.cLast = cLast).mergeSort
      fun r r' => r.cFirst ≤ r'.cFirst

def orderStatusGetLastOrder (wId dId cId : IdType) : Statement (List Order) :=
  reads fun db => ((db.orders.filter fun r =>
    r.oWId = wId.toInt ∧ r.oDId = dId.toInt ∧ r.oCId = cId.toInt).mergeSort
      fun r r' => r'.oId ≤ r.oId).take 1

def orderStatusGetOrderLines (wId dId oId : IdType) : Statement (List OrderLine) :=
  reads fun db => db.orderLine.filter fun r =>
    r.olWId = wId.toInt ∧ r.olDId = dId.toInt ∧ r.olOId = oId.toInt

/-! ## Payment -/

def paymentGetWarehouse (wId : IdType) : Statement (List Warehouse) :=
  reads fun db => db.warehouse.rows.filter fun r => r.wId = wId.toInt

def paymentUpdateWarehouseBalance (hAmount : F) (wId : IdType) : Statement Unit :=
  fun db => do
    let amount ← p.written hAmount
    return ((), { db with
      warehouse := db.warehouse.update (fun r => r.wId = wId.toInt)
        (fun r => { r with wYtd := r.wYtd + amount }) fun _ => rfl })

def paymentGetDistrict (wId dId : IdType) : Statement (List District) :=
  reads fun db => db.district.rows.filter fun r => r.dWId = wId.toInt ∧ r.dId = dId.toInt

def paymentUpdateDistrictBalance (hAmount : F) (dWId dId : IdType) : Statement Unit :=
  fun db => do
    let amount ← p.written hAmount
    return ((), { db with
      district := db.district.update
        (fun r => r.dWId = dWId.toInt ∧ r.dId = dId.toInt)
        (fun r => { r with dYtd := r.dYtd + amount }) fun _ => rfl })

def paymentGetCustomerByCustomerId (wId dId cId : IdType) : Statement (List Customer) :=
  reads fun db => db.customer.rows.filter fun r =>
    r.cWId = wId.toInt ∧ r.cDId = dId.toInt ∧ r.cId = cId.toInt

def paymentGetCustomerByLastName (wId dId : IdType) (cLast : String) : Statement (List Customer) :=
  reads fun db => (db.customer.rows.filter fun r =>
    r.cWId = wId.toInt ∧ r.cDId = dId.toInt ∧ r.cLast = cLast).mergeSort
      fun r r' => r.cFirst ≤ r'.cFirst

def paymentUpdateBCCustomer (cBalance cYtdPayment : F) (cPaymentCnt : IdType) (cData : String)
    (cWId cDId cId : IdType) : Statement Unit :=
  fun db => do
    let balance ← p.written cBalance
    let ytdPayment ← p.written cYtdPayment
    return ((), { db with
      customer := db.customer.update
        (fun r => r.cWId = cWId.toInt ∧ r.cDId = cDId.toInt ∧ r.cId = cId.toInt)
        (fun r => { r with
          cBalance := balance, cYtdPayment := ytdPayment, cPaymentCnt := cPaymentCnt.toInt
          cData := cData }) fun _ => rfl })

def paymentUpdateGCCustomer (cBalance cYtdPayment : F) (cPaymentCnt cWId cDId cId : IdType) :
    Statement Unit :=
  fun db => do
    let balance ← p.written cBalance
    let ytdPayment ← p.written cYtdPayment
    return ((), { db with
      customer := db.customer.update
        (fun r => r.cWId = cWId.toInt ∧ r.cDId = cDId.toInt ∧ r.cId = cId.toInt)
        (fun r => { r with
          cBalance := balance, cYtdPayment := ytdPayment, cPaymentCnt := cPaymentCnt.toInt })
        fun _ => rfl })

def paymentInsertHistory (cId cDId cWId dId wId : IdType) (hDate : String) (hAmount : F)
    (hData : String) : Statement Unit :=
  fun db => do
    let amount ← p.written hAmount
    return ((), { db with history := db.history ++ [{
      hCId := cId.toInt, hCDId := cDId.toInt, hCWId := cWId.toInt, hDId := dId.toInt
      hWId := wId.toInt, hDate := hDate, hAmount := amount, hData := hData }] })

/-! ## Stock-Level -/

def stockLevelGetOid (wId dId : IdType) : Statement (List Int) :=
  reads fun db => (db.district.rows.filter fun r =>
    r.dWId = wId.toInt ∧ r.dId = dId.toInt).map (·.dNextOId)

def stockLevelGetStockCount (wId dId oId oIdMin sWId threshold : IdType) : Statement Nat :=
  reads fun db => ((db.orderLine.filter fun r =>
    r.olWId = wId.toInt ∧ r.olDId = dId.toInt ∧ r.olOId < oId.toInt ∧ oIdMin.toInt ≤ r.olOId ∧
      ∃ s ∈ db.stock, s.sWId = sWId.toInt ∧ s.sIId = r.olIId ∧ s.sQuantity < threshold.toInt).map
    (·.olIId)).dedup.length

end CxxLab.DuckdbLab
