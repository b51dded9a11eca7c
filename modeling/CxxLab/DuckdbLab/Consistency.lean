import CxxLab.DuckdbLab.Driver
import CxxLab.Lib.Run
import Mathlib.Order.Bounds.Basic

/-!
# What the transactions keep

`Consistent` is two of the consistency conditions: what a warehouse has taken in is what its
districts have, and the next number of a district is one more than the largest of its orders. Each
is kept by two statements of one transaction, so that it does not hold between them, and what
makes it hold again is either the second of the two or the rollback.

Both conditions are about three tables, the *books*: WAREHOUSE, DISTRICT, and of ORDERS the numbers
and places. Only `DoPayment` and `DoNewOrder` write to them. `DoDelivery`, whose statements may not
be in a transaction at all, sets a column of ORDERS that is not looked at here.

The next number of a district is computed with an `int`: a district whose `D_NEXT_O_ID` is the
largest there is gets the smallest.
-/

set_option autoImplicit false

namespace CxxLab.DuckdbLab

open CxxLab.Lib Exec

/-! ## The conditions -/

/-- The place of an order: its number under the district it is in. -/
def Order.place (r : Order) : (Int × Int) × Int := ((r.oWId, r.oDId), r.oId)

/-- The numbers of the orders of a district. -/
def orderIds (db : Database) (d : District) : Set Int :=
  {o | (d.key, o) ∈ db.orders.map Order.place}

/-- **Consistency**, of every warehouse and every district.

What a warehouse has taken since the beginning of the year is the sum of what its districts have.
The next order of a district has the number behind the largest one there is, so each district has an
order. -/
structure Consistent (db : Database) : Prop where
  ytd : ∀ w ∈ db.warehouse.rows,
    w.wYtd = ((db.district.rows.filter fun d => d.dWId = w.wId).map (·.dYtd)).sum
  nextOId : ∀ d ∈ db.district.rows, IsGreatest (orderIds db d) (d.dNextOId - 1)

/-- The next number of the district can be counted up. -/
def CanCount (db : Database) (ctx : NewOrderContext) : Prop :=
  ∀ d ∈ db.district.rows, d.key = (ctx.wId.toInt, ctx.dId.toInt) → d.dNextOId ≠ Int32.maxValue.toInt

/-- No New-Order is run on a district that is out of numbers. -/
def TaskFits {F : Type} (s : Session) : TpccContext F × List Outcome → Prop
  | (.newOrder ctx, _) => CanCount s.db ctx
  | _ => True

/-! ## The books -/

/-- The same books. -/
structure SameBooks (d d' : Database) : Prop where
  warehouse : d'.warehouse = d.warehouse
  district : d'.district = d.district
  orders : d'.orders.map Order.place = d.orders.map Order.place

namespace SameBooks

theorem refl (d : Database) : SameBooks d d := ⟨rfl, rfl, rfl⟩

theorem trans {d d' d'' : Database} (h : SameBooks d d') (h' : SameBooks d' d'') :
    SameBooks d d'' :=
  ⟨h'.warehouse.trans h.warehouse, h'.district.trans h.district, h'.orders.trans h.orders⟩

/-- Consistency is a matter of the books. -/
theorem consistent {d d' : Database} (h : SameBooks d d') (hd : Consistent d) : Consistent d' where
  ytd := by
    rw [h.warehouse, h.district]
    exact hd.ytd
  nextOId := by
    intro r hr
    rw [h.district] at hr
    have hsame : orderIds d' r = orderIds d r := by rw [orderIds, orderIds, h.orders]
    rw [hsame]
    exact hd.nextOId r hr

end SameBooks

/-- A statement that leaves the books alone. -/
def KeepsBooks {α : Type} (statement : Statement α) : Prop :=
  ∀ d a d', statement d = some (a, d') → SameBooks d d'

theorem KeepsBooks.reads {α : Type} (f : Database → α) : KeepsBooks (reads f) := by
  rintro d a d' ⟨⟩
  exact .refl d

theorem KeepsBooks.writes {f : Database → Database} (h : ∀ d, SameBooks d (f d)) :
    KeepsBooks (writes f) := by
  rintro d a d' ⟨⟩
  exact h d

/-- An assertion that is only about the books. -/
structure OfBooks (I : Session → Prop) (E : Stop → Session → Prop) : Prop extends Stable I E where
  books : ∀ s db, I s → SameBooks s.db db → I { s with db := db }

/-- An assertion that every query that leaves the books alone keeps. -/
structure KeptByQueries (I : Session → Prop) (E : Stop → Session → Prop) : Prop where
  query : ∀ {α : Type} {statement : Statement α}, KeepsBooks statement →
    Triple I (query statement) (fun _ => I) E
  throws : ∀ s, I s → E .exception s

theorem OfBooks.kept {I : Session → Prop} {E : Stop → Session → Prop} (hI : OfBooks I E) :
    KeptByQueries I E where
  query := fun h => hI.toStable.query fun s a db hs hst => hI.books s db hs (h s.db a db hst)
  throws := hI.throws

/-- In a transaction, with the books of `d`. -/
theorem OfBooks.inTx (d₀ d : Database) : OfBooks (InTx d₀ (SameBooks d)) (Aborted d₀) where
  toStable := InTx.stable d₀ _
  books := fun _ _ hs h => ⟨hs.1, hs.2.trans h⟩

theorem startTransaction_books (d₀ : Database) :
    Triple (Idle d₀) startTransaction (fun _ => InTx d₀ (SameBooks d₀)) (Aborted d₀) := by
  refine startTransaction_idle.post ?_
  rintro _ s ⟨hbegun, rfl⟩
  exact ⟨hbegun, .refl _⟩

/-- The first row of a `SELECT`, of which something is known that the books settle. -/
theorem query_row {α β : Type} {d₀ : Database} {f : Database → List α} {φ : α → Prop}
    {k : α → DriverM β} {R : β → Session → Prop} (h : ∀ d, SameBooks d₀ d → ∀ r ∈ f d, φ r)
    (hk : ∀ r, φ r → Triple (InTx d₀ (SameBooks d₀)) (k r) R (Aborted d₀)) :
    Triple (InTx d₀ (SameBooks d₀)) (query (reads f) >>= fun rows => getRow rows 0 >>= k) R
      (Aborted d₀) := by
  have hrows : Triple (InTx d₀ (SameBooks d₀)) (query (reads f))
      (fun rows s => (∀ r ∈ rows, φ r) ∧ InTx d₀ (SameBooks d₀) s) (Aborted d₀) := by
    refine (InTx.stable d₀ _).query ?_
    rintro s rows db hs ⟨⟩
    exact ⟨h _ hs.2, hs⟩
  refine hrows.bind fun rows => pull fun hall => ?_
  refine ((InTx.stable d₀ _).getRow rows 0).bind fun r => pull fun hr => ?_
  exact hk r (hall r (List.mem_of_getElem? hr))

/-- With the books of `d`, in a transaction or not. -/
def Books (d : Database) (s : Session) : Prop := SameBooks d s.db ∧ ∀ d' ∈ s.begun, SameBooks d d'

theorem Books.rollback {d : Database} {s : Session} (h : Books d s) : Books d s.forceRollBack := by
  refine ⟨?_, by simp [Session.forceRollBack, Session.rollback]⟩
  show SameBooks d (s.begun.getD s.db)
  cases hb : s.begun with
  | none => exact h.1
  | some d' => exact h.2 d' hb

/-- `Books`, however a transaction ended early. -/
def StoppedWithBooks (d : Database) : Stop → Session → Prop
  | .returned, s => s.begun = none ∧ Books d s
  | .exception, s => Books d s

theorem OfBooks.books_of (d : Database) : OfBooks (Books d) (StoppedWithBooks d) where
  outcomes := fun _ _ h => h
  rollback := fun _ h => ⟨rfl, h.rollback⟩
  throws := fun _ h => h
  books := fun _ _ hs h => ⟨hs.1.trans h, hs.2⟩

/-! ## Transactions that leave the books alone -/

section Keeping

variable {F : Type} {p : Platform F} {I : Session → Prop} {E : Stop → Session → Prop}

theorem keepsBooks_deliveryUpdateOrders (oCarrierId oId oDId oWId : IdType) :
    KeepsBooks (deliveryUpdateOrders oCarrierId oId oDId oWId) :=
  .writes fun d => ⟨rfl, rfl, map_updateWhere (g := Order.place) (f := fun r =>
    { r with oCarrierId := oCarrierId.toInt }) (fun _ => rfl) d.orders⟩

theorem keepsBooks_newOrderGetStockInfo (dId olIId olSupplyWId : IdType) :
    KeepsBooks (newOrderGetStockInfo dId olIId olSupplyWId) := by
  intro d a d' h
  obtain ⟨rows, -, hrows⟩ := Option.bind_eq_some_iff.mp h
  cases hrows
  exact .refl d

theorem keepsBooks_newOrderCreateOrderLine (oId dId wId olNumber olIId olSupplyWId : IdType)
    (oEntryD : String) (olQuantity olAmount : IdType) (olDistInfo : String) :
    KeepsBooks (newOrderCreateOrderLine p oId dId wId olNumber olIId olSupplyWId oEntryD olQuantity
      olAmount olDistInfo) := by
  intro d a d' h
  obtain ⟨date, -, hdate⟩ := Option.bind_eq_some_iff.mp h
  cases hdate
  exact ⟨rfl, rfl, rfl⟩

namespace KeptByQueries

theorem getRow (hI : KeptByQueries I E) {α : Type} (rows : List α) (i : Nat) :
    Triple I (getRow rows i) (fun _ => I) E := by
  unfold DuckdbLab.getRow
  split
  · exact .pure fun _ => id
  · exact .throw hI.throws

theorem getId (hI : KeptByQueries I E) (v : Int) : Triple I (getId v) (fun _ => I) E :=
  Triple.ite (fun _ => .pure fun _ => id) fun _ => .throw hI.throws

theorem deliverDistrict (hI : KeptByQueries I E) (ctx : DeliveryContext) (dId : IdType) :
    Triple I (deliverDistrict p ctx dId) (fun _ => I) E := by
  refine (hI.query (.reads _)).bind fun rows => ?_
  cases rows with
  | nil => exact .pure fun _ => id
  | cons noOIdVal rows =>
    refine (hI.getId noOIdVal).bind fun noOId => ?_
    refine (hI.query (.reads _)).bind fun cIds => (hI.getRow cIds 0).bind fun cIdVal => ?_
    refine (hI.query (.reads _)).bind fun olTotalVal => ?_
    refine (hI.query (.writes fun _ => by constructor <;> rfl)).bind fun _ => ?_
    refine (hI.query (keepsBooks_deliveryUpdateOrders _ _ _ _)).bind fun _ => ?_
    refine (hI.query (.writes fun _ => by constructor <;> rfl)).bind fun _ => ?_
    cases p.sumToId olTotalVal with
    | none => exact .throw hI.throws
    | some olTotal =>
      refine (hI.getId cIdVal).bind fun cId => ?_
      exact hI.query (.writes fun _ => by constructor <;> rfl)

theorem getItems (hI : KeptByQueries I E) :
    ∀ iIds, Triple I (getItems iIds) (fun _ => I) E := by
  intro iIds
  induction iIds with
  | nil => exact .pure fun _ => id
  | cons iId iIds ih =>
    refine (hI.query (.reads _)).bind fun rows => (hI.getRow rows 0).bind fun item => ?_
    exact ih.bind fun items => .pure fun _ => id

theorem createLine (hI : KeptByQueries I E) (ctx : NewOrderContext)
    (dNextOId iId iWId iQty : IdType) (item : Item) :
    Triple I (createLine p ctx dNextOId iId iWId iQty item) (fun _ => I) E := by
  refine (hI.query (keepsBooks_newOrderGetStockInfo _ _ _)).bind fun rows => ?_
  refine (hI.getRow rows 0).bind fun row => ?_
  refine (hI.getId row.1.sQuantity).bind fun sQuantity => (hI.getId row.1.sYtd).bind fun sYtd => ?_
  refine (hI.getId row.1.sOrderCnt).bind fun sOrderCnt => ?_
  refine (hI.getId row.1.sRemoteCnt).bind fun sRemoteCnt => ?_
  refine (hI.query (.writes fun _ => by constructor <;> rfl)).bind fun _ => ?_
  exact hI.query (keepsBooks_newOrderCreateOrderLine _ _ _ _ _ _ _ _ _ _)

theorem orderStatusCustomer (hI : KeptByQueries I E) (ctx : OrderStatusContext) :
    Triple I (orderStatusCustomer ctx) (fun _ => I) E := by
  refine Triple.ite (fun _ => ?_) fun _ => ?_
  · exact (hI.query (.reads _)).bind fun _ => .pure fun _ => id
  · refine (hI.query (.reads _)).bind fun rows => (hI.getRow rows _).bind fun customer => ?_
    exact hI.getId _

theorem paymentCustomer (hI : KeptByQueries I E) (ctx : PaymentContext F) :
    Triple I (paymentCustomer ctx) (fun _ => I) E := by
  refine Triple.ite (fun _ => ?_) fun _ => ?_
  · refine (hI.query (.reads _)).bind fun rows => (hI.getRow rows 0).bind fun customer => ?_
    exact .pure fun _ => id
  · refine (hI.query (.reads _)).bind fun rows => (hI.getRow rows _).bind fun customer => ?_
    exact (hI.getId _).bind fun cId => .pure fun _ => id

end KeptByQueries

end Keeping

/-! ## Payment -/

/-- What `PAYMENT_UpdateWarehouseBalance` sets. -/
def Warehouse.addYtd (amount : ℚ) (r : Warehouse) : Warehouse :=
  { r with wYtd := r.wYtd + amount }

/-- What `PAYMENT_UpdateDistrictBalance` sets. -/
def District.addYtd (amount : ℚ) (r : District) : District := { r with dYtd := r.dYtd + amount }

/-- The books after a payment: the statements of `PAYMENT_UpdateWarehouseBalance` and
`PAYMENT_UpdateDistrictBalance`. -/
def afterPayment {F : Type} (db : Database) (ctx : PaymentContext F) (amount : ℚ) : Database :=
  { db with
    warehouse := db.warehouse.update (fun r => r.wId = ctx.wId.toInt) (Warehouse.addYtd amount)
      fun _ => rfl
    district := db.district.update (fun r => r.dWId = ctx.wId.toInt ∧ r.dId = ctx.dId.toInt)
      (District.addYtd amount) fun _ => rfl }

/-- The payment has been made, in a district there is. -/
def Paid {F : Type} (d₀ : Database) (ctx : PaymentContext F) (db : Database) : Prop :=
  ∃ d ∈ d₀.district.rows, d.key = (ctx.wId.toInt, ctx.dId.toInt) ∧
    ∃ amount, SameBooks (afterPayment d₀ ctx amount) db

/-- What the districts of a warehouse have, after a payment in one of them. -/
theorem sum_dYtd_afterPayment {F : Type} {db : Database} {ctx : PaymentContext F} {d : District}
    (hd : d ∈ db.district.rows) (hkey : d.key = (ctx.wId.toInt, ctx.dId.toInt)) (amount : ℚ)
    (wId : Int) :
    (((afterPayment db ctx amount).district.rows.filter fun r => r.dWId = wId).map (·.dYtd)).sum =
      ((db.district.rows.filter fun r => r.dWId = wId).map (·.dYtd)).sum +
        if wId = ctx.wId.toInt then amount else 0 := by
  show (((updateWhere _ (District.addYtd amount) db.district.rows).filter _).map _).sum = _
  rw [filter_updateWhere (f := District.addYtd amount) (fun _ => rfl),
    sum_map_updateWhere (f := District.addYtd amount) (g := District.dYtd) (fun _ => rfl)]
  congr 1
  obtain ⟨hw, hid⟩ := Prod.mk.inj hkey
  split
  · rename_i heq
    -- One district of this warehouse is meant.
    have hone := db.district.countP_key (q := fun r => r.dWId = wId) hd (by simp [heq, hw])
    simp only [District.key, Prod.mk.injEq, hw, hid] at hone
    rw [hone, one_nsmul]
  · rename_i hne
    rw [List.countP_eq_zero.mpr, zero_nsmul]
    intro r hr hmeant
    rw [List.mem_filter] at hr
    simp only [decide_eq_true_eq] at hr hmeant
    exact hne (hr.2.symm.trans hmeant.1)

/-- **A payment keeps the first condition** by its two updates. -/
theorem Consistent.afterPayment {F : Type} {db : Database} (h : Consistent db)
    {ctx : PaymentContext F} {d : District} (hd : d ∈ db.district.rows)
    (hkey : d.key = (ctx.wId.toInt, ctx.dId.toInt)) (amount : ℚ) :
    Consistent (afterPayment db ctx amount) where
  ytd := by
    intro w hw
    obtain ⟨w₀, hw₀, rfl⟩ := mem_updateWhere.mp hw
    have hsum := sum_dYtd_afterPayment hd hkey amount w₀.wId
    rw [← h.ytd w₀ hw₀] at hsum
    split
    · rename_i heq
      rw [if_pos (by simpa using heq)] at hsum
      exact hsum.symm
    · rename_i hne
      rw [if_neg (by simpa using hne), add_zero] at hsum
      exact hsum.symm
  nextOId := by
    intro r hr
    obtain ⟨r₀, hr₀, rfl⟩ := mem_updateWhere.mp hr
    have hnext := h.nextOId r₀ hr₀
    split
    · exact hnext
    · exact hnext

/-- `PAYMENT_UpdateWarehouseBalance` and `PAYMENT_UpdateDistrictBalance`, one after the other. -/
theorem books_afterPayment {F : Type} {p : Platform F} {ctx : PaymentContext F}
    {d₀ d₁ d₂ d₃ : Database} (hd : SameBooks d₀ d₁)
    (hw : paymentUpdateWarehouseBalance p ctx.hAmount ctx.wId d₁ = some ((), d₂))
    (hdis : paymentUpdateDistrictBalance p ctx.hAmount ctx.wId ctx.dId d₂ = some ((), d₃)) :
    ∃ amount, SameBooks (afterPayment d₀ ctx amount) d₃ := by
  obtain ⟨amount, hamount, hw⟩ := Option.bind_eq_some_iff.mp hw
  obtain ⟨amount', hamount', hdis⟩ := Option.bind_eq_some_iff.mp hdis
  -- The same float is written twice.
  obtain rfl : amount = amount' := Option.some_inj.mp (hamount.symm.trans hamount')
  cases hw
  cases hdis
  refine ⟨amount, ?_, ?_, hd.orders⟩
  · show (afterPayment d₁ ctx amount).warehouse = _
    simp only [afterPayment, hd.warehouse]
  · show (afterPayment d₁ ctx amount).district = _
    simp only [afterPayment, hd.district]

section Payment

variable {F : Type} {p : Platform F}

theorem keepsBooks_paymentUpdateBCCustomer (cBalance cYtdPayment : F) (cPaymentCnt : IdType)
    (cData : String) (cWId cDId cId : IdType) :
    KeepsBooks (paymentUpdateBCCustomer p cBalance cYtdPayment cPaymentCnt cData cWId cDId cId) := by
  intro d a d' h
  obtain ⟨balance, -, h⟩ := Option.bind_eq_some_iff.mp h
  obtain ⟨ytdPayment, -, h⟩ := Option.bind_eq_some_iff.mp h
  cases h
  exact ⟨rfl, rfl, rfl⟩

theorem keepsBooks_paymentUpdateGCCustomer (cBalance cYtdPayment : F)
    (cPaymentCnt cWId cDId cId : IdType) :
    KeepsBooks (paymentUpdateGCCustomer p cBalance cYtdPayment cPaymentCnt cWId cDId cId) := by
  intro d a d' h
  obtain ⟨balance, -, h⟩ := Option.bind_eq_some_iff.mp h
  obtain ⟨ytdPayment, -, h⟩ := Option.bind_eq_some_iff.mp h
  cases h
  exact ⟨rfl, rfl, rfl⟩

theorem keepsBooks_paymentInsertHistory (cId cDId cWId dId wId : IdType) (hDate : String)
    (hAmount : F) (hData : String) :
    KeepsBooks (paymentInsertHistory p cId cDId cWId dId wId hDate hAmount hData) := by
  intro d a d' h
  obtain ⟨amount, -, h⟩ := Option.bind_eq_some_iff.mp h
  cases h
  exact ⟨rfl, rfl, rfl⟩

/-- **A payment** ends with its two updates made, of a district there is, or with the database it
began in. -/
theorem doPayment_books (ctx : PaymentContext F) (d₀ : Database) :
    Triple (Idle d₀) (doPayment p ctx)
      (fun _ s => s.begun = none ∧ Paid d₀ ctx s.db) (Aborted d₀) := by
  have hI := (OfBooks.inTx d₀ d₀).kept
  refine (startTransaction_books d₀).bind fun _ => ?_
  refine (hI.paymentCustomer ctx).bind fun row => ?_
  refine (hI.getId row.2.cPaymentCnt).bind fun cPaymentCnt => ?_
  refine (hI.query (.reads _)).bind fun warehouses => ?_
  refine (hI.getRow warehouses 0).bind fun warehouse => ?_
  refine query_row (φ := fun r => r ∈ d₀.district.rows ∧ r.key = (ctx.wId.toInt, ctx.dId.toInt)) ?_
    fun district hdistrict => ?_
  · intro d hd r hr
    obtain ⟨hmem, hkey⟩ := List.mem_filter.mp hr
    simp only [decide_eq_true_eq] at hkey
    exact ⟨hd.district ▸ hmem, Prod.ext hkey.1 hkey.2⟩
  -- Between the two updates nothing is said but how the first was made.
  refine (query_inTx (Q := fun _ d => ∃ d₁, SameBooks d₀ d₁ ∧
    paymentUpdateWarehouseBalance p ctx.hAmount ctx.wId d₁ = some ((), d))
    fun d _ d' hd hst => ⟨d, hd, hst⟩).bind fun _ => ?_
  refine (query_inTx (Q := fun _ d => ∃ amount, SameBooks (afterPayment d₀ ctx amount) d)
    fun d _ d' hd hst => ?_).bind fun _ => ?_
  · obtain ⟨d₁, hd₁, hw⟩ := hd
    exact books_afterPayment hd₁ hw hst
  have hafter : KeptByQueries (InTx d₀ fun d => ∃ amount, SameBooks (afterPayment d₀ ctx amount) d)
      (Aborted d₀) := by
    refine OfBooks.kept ⟨InTx.stable d₀ _, ?_⟩
    rintro s db ⟨hbegun, amount, hs⟩ h
    exact ⟨hbegun, amount, hs.trans h⟩
  have hend : Triple (InTx d₀ fun d => ∃ amount, SameBooks (afterPayment d₀ ctx amount) d)
      (do
        query (paymentInsertHistory p row.1 ctx.cDId ctx.cWId ctx.dId ctx.wId ctx.hDate ctx.hAmount
          (warehouse.wName ++ "    " ++ district.dName))
        connCommit)
      (fun _ s => s.begun = none ∧ Paid d₀ ctx s.db) (Aborted d₀) := by
    refine (hafter.query (keepsBooks_paymentInsertHistory _ _ _ _ _ _ _ _)).bind fun _ => ?_
    exact connCommit_inTx.post fun _ s hs => ⟨hs.1, district, hdistrict.1, hdistrict.2, hs.2⟩
  refine Triple.ite (fun _ => ?_) fun _ => ?_
  · exact (hafter.query (keepsBooks_paymentUpdateBCCustomer _ _ _ _ _ _ _)).bind fun _ => hend
  · exact (hafter.query (keepsBooks_paymentUpdateGCCustomer _ _ _ _ _ _)).bind fun _ => hend

end Payment

/-! ## New-Order -/

/-- The order that `NEWORDER_CreateOrder` inserts. -/
def NewOrderContext.order (ctx : NewOrderContext) (oId : IdType) : Order where
  oId := oId.toInt
  oDId := ctx.dId.toInt
  oWId := ctx.wId.toInt
  oCId := ctx.cId.toInt
  oEntryD := ctx.oEntryD
  oCarrierId := (0 : IdType).toInt
  oOlCnt := (Int32.ofNat ctx.iIds.length).toInt
  oAllLocal := (if ctx.allLocal then 1 else 0 : IdType).toInt

/-- What `NEWORDER_IncrementNextOrderId` sets. -/
def District.setNextOId (oId : IdType) (r : District) : District := { r with dNextOId := oId.toInt }

/-- The books after an order has been given a number: the statements of
`NEWORDER_IncrementNextOrderId` and `NEWORDER_CreateOrder`. -/
def afterNewOrder (db : Database) (ctx : NewOrderContext) (oId : IdType) : Database :=
  { db with
    district := db.district.update (fun r => r.dId = ctx.dId.toInt ∧ r.dWId = ctx.wId.toInt)
      (District.setNextOId (oId + 1)) fun _ => rfl
    orders := db.orders ++ [ctx.order oId] }

/-- The order has been given its number, in a district there is. -/
def Numbered (d₀ : Database) (ctx : NewOrderContext) (db : Database) : Prop :=
  ∃ d ∈ d₀.district.rows, d.key = (ctx.wId.toInt, ctx.dId.toInt) ∧
    ∃ oId : IdType, d.dNextOId = oId.toInt ∧ SameBooks (afterNewOrder d₀ ctx oId) db

theorem toInt_add_one {n : IdType} (h : n.toInt ≠ Int32.maxValue.toInt) :
    (n + 1).toInt = n.toInt + 1 := by
  have hlt := n.toInt_lt
  have hle := n.le_toInt
  rw [Int32.toInt_maxValue] at h
  rw [Int32.toInt_add, Int32.toInt_one]
  exact Int.bmod_eq_of_le (by omega) (by omega)

theorem orderIds_afterNewOrder (db : Database) (ctx : NewOrderContext) (oId : IdType)
    (d : District) : orderIds (afterNewOrder db ctx oId) d =
      if d.key = (ctx.wId.toInt, ctx.dId.toInt) then insert oId.toInt (orderIds db d)
      else orderIds db d := by
  ext o
  have hmem : o ∈ orderIds (afterNewOrder db ctx oId) d ↔
      o ∈ orderIds db d ∨ (d.key, o) = ((ctx.wId.toInt, ctx.dId.toInt), oId.toInt) := by
    show _ ∈ (db.orders ++ [_]).map _ ↔ _
    rw [List.map_append, List.mem_append]
    exact or_congr Iff.rfl List.mem_singleton
  rw [hmem]
  split
  · rename_i hkey
    rw [hkey, Set.mem_insert_iff, or_comm]
    simp
  · rename_i hkey
    refine or_iff_left ?_
    intro heq
    exact hkey (Prod.mk.inj heq).1

/-- **An order keeps the second condition** by its update and its insert, if the number after it is
one more. -/
theorem Consistent.afterNewOrder {db : Database} (h : Consistent db) {ctx : NewOrderContext}
    {oId : IdType} {d : District} (hd : d ∈ db.district.rows)
    (hkey : d.key = (ctx.wId.toInt, ctx.dId.toInt)) (hnext : d.dNextOId = oId.toInt)
    (hfits : CanCount db ctx) : Consistent (afterNewOrder db ctx oId) where
  ytd := by
    intro w hw
    rw [h.ytd w hw]
    show _ = (((updateWhere _ (District.setNextOId (oId + 1)) db.district.rows).filter _).map _).sum
    rw [filter_updateWhere (f := District.setNextOId (oId + 1)) (fun _ => rfl),
      map_updateWhere (f := District.setNextOId (oId + 1)) (g := District.dYtd) (fun _ => rfl)]
  nextOId := by
    intro r hr
    obtain ⟨r₀, hr₀, rfl⟩ := mem_updateWhere.mp hr
    have hgreatest := h.nextOId r₀ hr₀
    have hsame : orderIds (DuckdbLab.afterNewOrder db ctx oId) (if decide (r₀.dId = ctx.dId.toInt ∧
        r₀.dWId = ctx.wId.toInt) then r₀.setNextOId (oId + 1) else r₀) =
        orderIds (DuckdbLab.afterNewOrder db ctx oId) r₀ := by
      split <;> rfl
    rw [hsame, orderIds_afterNewOrder]
    by_cases hmeant : r₀.key = (ctx.wId.toInt, ctx.dId.toInt)
    · obtain rfl := db.district.eq_of_key hr₀ hd (hmeant.trans hkey.symm)
      obtain ⟨hw, hid⟩ := Prod.mk.inj hmeant
      have hone := toInt_add_one (n := oId) (by rw [← hnext]; exact hfits r₀ hr₀ hkey)
      rw [if_pos hmeant, if_pos (by simp [hw, hid])]
      show IsGreatest _ ((oId + 1).toInt - 1)
      rw [hone, Int.add_sub_cancel]
      refine ⟨Set.mem_insert _ _, ?_⟩
      rintro o (rfl | ho)
      · exact le_refl _
      · have := hgreatest.2 ho
        omega
    · rw [if_neg hmeant, if_neg]
      · exact hgreatest
      · intro hboth
        simp only [decide_eq_true_eq] at hboth
        exact hmeant (Prod.ext hboth.2 hboth.1)

section Transactions

variable {F : Type} {p : Platform F}

/-- **A new order** ends with its number given and the next one counted up, or with the database
it began in. -/
theorem doNewOrder_books (ctx : NewOrderContext) (d₀ : Database) :
    Triple (Idle d₀) (doNewOrder p ctx)
      (fun _ s => s.begun = none ∧ Numbered d₀ ctx s.db) (Aborted d₀) := by
  have hI := (OfBooks.inTx d₀ d₀).kept
  refine (startTransaction_books d₀).bind fun _ => ?_
  refine (hI.getItems ctx.iIds).bind fun items => (hI.query (.reads _)).bind fun _ => ?_
  refine query_row (φ := fun row => ∃ r ∈ d₀.district.rows,
    r.key = (ctx.wId.toInt, ctx.dId.toInt) ∧ r.dNextOId = row.2) ?_ fun row hrow => ?_
  · intro d hd row hrow
    obtain ⟨r, hr, rfl⟩ := List.mem_map.mp hrow
    obtain ⟨hmem, hkey⟩ := List.mem_filter.mp hr
    simp only [decide_eq_true_eq] at hkey
    exact ⟨r, hd.district ▸ hmem, Prod.ext hkey.2 hkey.1, rfl⟩
  obtain ⟨r, hmem, hkey, hnext⟩ := hrow
  refine ((InTx.stable d₀ _).getId row.2).bind fun dNextOId => pull fun hid => ?_
  refine (hI.query (.reads _)).bind fun _ => ?_
  refine (query_inTx (Q := fun _ d => ∃ d₁, SameBooks d₀ d₁ ∧
    newOrderIncrementNextOrderId (dNextOId + 1) ctx.dId ctx.wId d₁ = some ((), d))
    fun d _ d' hd hst => ⟨d, hd, hst⟩).bind fun _ => ?_
  have hafter := (OfBooks.inTx d₀ (afterNewOrder d₀ ctx dNextOId)).kept
  refine (query_inTx (Q := fun _ => SameBooks (afterNewOrder d₀ ctx dNextOId))
    fun d _ d' hd hst => ?_).bind fun _ => ?_
  · obtain ⟨d₁, hd₁, hincrement⟩ := hd
    cases hincrement
    cases hst
    refine ⟨hd₁.warehouse, ?_, ?_⟩
    · show (afterNewOrder d₁ ctx dNextOId).district = _
      simp only [afterNewOrder, hd₁.district]
    · show (d₁.orders ++ [ctx.order dNextOId]).map Order.place = _
      rw [List.map_append, hd₁.orders, ← List.map_append]
      rfl
  refine (hafter.query (.writes fun _ => by constructor <;> rfl)).bind fun _ => ?_
  refine (Triple.forM fun line _ => ?_).bind fun _ => ?_
  · exact hafter.createLine ctx dNextOId _ _ _ _
  exact connCommit_inTx.post fun _ s hs => ⟨hs.1, r, hmem, hkey, dNextOId, hnext.trans hid.symm, hs.2⟩

theorem doOrderStatus_books (ctx : OrderStatusContext) (d₀ : Database) :
    Triple (Idle d₀) (doOrderStatus ctx) (fun _ s => s.begun = none ∧ SameBooks d₀ s.db)
      (Aborted d₀) := by
  have hI := (OfBooks.inTx d₀ d₀).kept
  refine (startTransaction_books d₀).bind fun _ => ?_
  refine (hI.orderStatusCustomer ctx).bind fun cId => (hI.query (.reads _)).bind fun orders => ?_
  cases orders with
  | nil => exact connCommit_inTx
  | cons order orders =>
    refine (hI.getId order.oId).bind fun oId => (hI.query (.reads _)).bind fun _ => ?_
    exact connCommit_inTx

theorem doStockLevel_books (ctx : StockLevelContext) (d₀ : Database) :
    Triple (Idle d₀) (doStockLevel ctx) (fun _ s => s.begun = none ∧ SameBooks d₀ s.db)
      (Aborted d₀) := by
  have hI := (OfBooks.inTx d₀ d₀).kept
  refine (startTransaction_books d₀).bind fun _ => ?_
  refine (hI.query (.reads _)).bind fun rows => (hI.getRow rows 0).bind fun oIdVal => ?_
  refine (hI.getId oIdVal).bind fun oId => (hI.query (.reads _)).bind fun _ => ?_
  exact connCommit_inTx

theorem connStart_books (d₀ : Database) :
    Triple (Books d₀) connStart (fun _ => Books d₀) (StoppedWithBooks d₀) := by
  have hI := OfBooks.books_of d₀
  refine hI.connCall rfl ?_ ?_
  · exact .pure fun _ => id
  refine Triple.get_bind fun s hs => ?_
  cases hbegun : s.begun with
  | some d =>
    refine .pure ?_
    rintro s rfl
    exact hs
  | none =>
    refine (Triple.modify (Q := fun _ => Books d₀) ?_).bind fun _ => .pure fun _ => id
    rintro s rfl
    refine ⟨hs.1, ?_⟩
    rintro d ⟨⟩
    exact hs.1

theorem connCommit_books (d₀ : Database) :
    Triple (Books d₀) connCommit (fun _ s => s.begun = none ∧ Books d₀ s)
      (StoppedWithBooks d₀) := by
  have hI := OfBooks.books_of d₀
  refine hI.connCall rfl ?_ ?_
  · exact .throw hI.throws
  refine Triple.get_bind fun s hs => ?_
  cases hbegun : s.begun with
  | none =>
    refine .throw ?_
    rintro s rfl
    exact hs
  | some d =>
    refine Triple.modify ?_
    rintro s rfl
    exact ⟨rfl, hs.1, by simp⟩

/-- A delivery keeps the books whether or not it is in a transaction. -/
theorem doDelivery_books (ctx : DeliveryContext) (d₀ : Database) :
    Triple (Idle d₀) (doDelivery p ctx) (fun _ s => s.begun = none ∧ Books d₀ s)
      (StoppedWithBooks d₀) := by
  have hI := OfBooks.books_of d₀
  refine Triple.pre (S := Books d₀) ?_ ?_
  · refine (connStart_books d₀).bind fun _ => ?_
    refine (Triple.forM fun dId _ => hI.kept.deliverDistrict ctx dId).bind fun _ => ?_
    exact connCommit_books d₀
  · rintro s ⟨hbegun, rfl⟩
    exact ⟨.refl _, by simp [hbegun]⟩

end Transactions

/-! ## Tasks and runs -/

/-- Between two tasks there is no transaction. -/
structure Inv (s : Session) : Prop where
  begun : s.begun = none
  consistent : Consistent s.db

/-- A transaction that is aborted leaves, after the rollback of `Task::Run`, what it began in. -/
theorem runTransaction_aborted {F : Type} {p : Platform F} (ctx : TpccContext F) {s : Session}
    {Q : Database → Prop} (hs : s.begun = none)
    (h : Triple (Idle s.db) (doTransaction p ctx) (fun _ s' => s'.begun = none ∧ Q s'.db)
      (Aborted s.db)) :
    (runTransaction p ctx s).begun = none ∧
      (Q (runTransaction p ctx s).db ∨ (runTransaction p ctx s).db = s.db) := by
  have hrun := h s ⟨hs, rfl⟩
  unfold runTransaction
  rcases hexec : exec (doTransaction p ctx) s with ⟨r, s'⟩
  rw [hexec] at hrun
  cases r with
  | ok _ => exact ⟨hrun.1, .inl hrun.2⟩
  | error e =>
    cases e with
    | returned => exact ⟨hrun.1, .inr hrun.2⟩
    | exception => exact ⟨rfl, .inr hrun⟩

theorem runTransaction_delivery {F : Type} {p : Platform F} (ctx : DeliveryContext) {s : Session}
    (hs : s.begun = none) : (runTransaction p (.delivery ctx) s).begun = none ∧
      SameBooks s.db (runTransaction p (.delivery ctx) s).db := by
  have hrun := doDelivery_books (p := p) ctx s.db s ⟨hs, rfl⟩
  unfold runTransaction doTransaction
  rcases hexec : exec (doDelivery p ctx) s with ⟨r, s'⟩
  rw [hexec] at hrun
  cases r with
  | ok _ => exact ⟨hrun.1, hrun.2.1⟩
  | error e =>
    cases e with
    | returned => exact ⟨hrun.1, hrun.2.1⟩
    | exception => exact ⟨rfl, hrun.rollback.1⟩

/-- **One task** keeps a consistent database consistent, whatever becomes of its queries. -/
theorem Inv.runTask {F : Type} {p : Platform F} {s : Session} (h : Inv s)
    (task : TpccContext F × List Outcome) (hfits : TaskFits s task) : Inv (s.runTask p task) := by
  obtain ⟨ctx, outcomes⟩ := task
  have hbegun : ({ s with outcomes := outcomes, hasRollbacked := false } : Session).begun = none :=
    h.begun
  cases ctx with
  | stockLevel ctx =>
    obtain ⟨hnone, hbooks | hsame⟩ := runTransaction_aborted (p := p) (.stockLevel ctx) hbegun
      (doStockLevel_books ctx _)
    · exact ⟨hnone, hbooks.consistent h.consistent⟩
    · exact ⟨hnone, hsame ▸ h.consistent⟩
  | delivery ctx =>
    obtain ⟨hnone, hbooks⟩ := runTransaction_delivery (p := p) ctx hbegun
    exact ⟨hnone, hbooks.consistent h.consistent⟩
  | orderStatus ctx =>
    obtain ⟨hnone, hbooks | hsame⟩ := runTransaction_aborted (p := p) (.orderStatus ctx) hbegun
      (doOrderStatus_books ctx _)
    · exact ⟨hnone, hbooks.consistent h.consistent⟩
    · exact ⟨hnone, hsame ▸ h.consistent⟩
  | payment ctx =>
    obtain ⟨hnone, hbooks | hsame⟩ := runTransaction_aborted (p := p) (.payment ctx) hbegun
      (doPayment_books ctx _)
    · obtain ⟨d, hd, hkey, amount, hbooks⟩ := hbooks
      exact ⟨hnone, hbooks.consistent (h.consistent.afterPayment hd hkey amount)⟩
    · exact ⟨hnone, hsame ▸ h.consistent⟩
  | newOrder ctx =>
    obtain ⟨hnone, hbooks | hsame⟩ := runTransaction_aborted (p := p) (.newOrder ctx) hbegun
      (doNewOrder_books ctx _)
    · obtain ⟨d, hd, hkey, oId, hnext, hbooks⟩ := hbooks
      exact ⟨hnone, hbooks.consistent (h.consistent.afterNewOrder hd hkey hnext hfits)⟩
    · exact ⟨hnone, hsame ▸ h.consistent⟩

/-- A connection that nothing has been done on. -/
def Session.new (db : Database) : Session := ⟨db, none, [], false⟩

/-- **Every serial run keeps the database consistent**, after every task of it and whatever becomes
of its queries, if no New-Order is run on a district that is out of numbers.

What `Consistent` compares is written by two transactions: a payment adds the same amount to a
warehouse and to one of its districts, and an order takes the next number of its district and counts
it up. A task that does not commit is rolled back. Only a delivery goes on where `START TRANSACTION`
has failed, and so may leave half of its work behind; but it writes to none of these columns. -/
theorem run_consistent {F : Type} (p : Platform F) {db : Database} (hdb : Consistent db)
    (tasks : List (TpccContext F × List Outcome))
    (hfits : Along (fun s task => some (s.runTask p task)) TaskFits (Session.new db) tasks) :
    ∀ pre, pre <+: tasks →
      ∃ s, runSteps (fun s task => some (s.runTask p task)) (Session.new db) pre = some s ∧
        Consistent s.db := by
  intro pre hpre
  obtain ⟨s, hrun, hinv⟩ := Along.run_inv (I := Inv)
    (fun s task hs htask => ⟨_, rfl, hs.runTask task htask⟩) ⟨rfl, hdb⟩ (hfits.initial hpre)
  exact ⟨s, hrun, hinv.consistent⟩

/-! ## One district -/

instance (db : Database) (ctx : NewOrderContext) : Decidable (CanCount db ctx) :=
  inferInstanceAs (Decidable (∀ d ∈ _, _ → _))

instance {F : Type} (s : Session) : ∀ task : TpccContext F × List Outcome, Decidable (TaskFits s task)
  | (.newOrder ctx, _) => inferInstanceAs (Decidable (CanCount s.db ctx))
  | (.stockLevel _, _) | (.delivery _, _) | (.orderStatus _, _) | (.payment _, _) => .isTrue trivial

/-- Floats that are as exact as decimals, and dates that are no statement. -/
def exactPlatform : Platform ℚ where
  ofDecimal := id
  add := (· + ·)
  sub := (· - ·)
  mul n x := n.toInt * x
  toId x := Int32.ofInt x.floor
  written := some
  sumToId sum := sum.map fun x => Int32.ofInt x.floor
  expression _ := none

/-- A warehouse with one district, which has one customer and one order, of this number. -/
def oneDistrict (oId : Int) : Database where
  item := []
  warehouse := ⟨[⟨1, "W", 0, 30⟩], List.nodup_singleton _⟩
  district := ⟨[⟨1, 1, "D", 0, 30, oId + 1⟩], List.nodup_singleton _⟩
  customer := ⟨[⟨1, 1, 1, "ANN", "BARBARBAR", "GC", 0, -10, 10, 1, ""⟩], List.nodup_singleton _⟩
  stock := []
  orders := [⟨oId, 1, 1, 1, "", 0, 0, 1⟩]
  newOrder := [⟨oId, 1, 1⟩]
  orderLine := []
  history := []

theorem oneDistrict_consistent (oId : Int) : Consistent (oneDistrict oId) where
  ytd := by
    intro w hw
    obtain rfl := List.mem_singleton.mp hw
    simp [oneDistrict]
  nextOId := by
    intro d hd
    obtain rfl := List.mem_singleton.mp hd
    have hids : orderIds (oneDistrict oId) ⟨1, 1, "D", 0, 30, oId + 1⟩ = {oId} := by
      ext o
      simp [orderIds, oneDistrict, Order.place, District.key]
    rw [hids, Int.add_sub_cancel]
    exact isGreatest_singleton

def oneOrder : NewOrderContext := ⟨1, 1, 1, "", [], [], [], true, Nat.le_refl _, Nat.le_refl _⟩

def onePayment : PaymentContext ℚ := ⟨1, 1, 5, 1, 1, 1, "", ""⟩

/-- A payment, one whose second update fails, an order, one that stops at an exception, and a
delivery without a transaction. -/
def someTasks : List (TpccContext ℚ × List Outcome) :=
  [(.payment onePayment, []),
    (.payment onePayment, [.success, .success, .success, .success, .success, .error]),
    (.newOrder oneOrder, []),
    (.newOrder oneOrder, [.success, .success, .success, .success, .success, .throws]),
    (.delivery ⟨1, 7, ""⟩, [.error])]

theorem run_consistent_someTasks :
    ∃ s, runSteps (fun s task => some (s.runTask exactPlatform task)) (Session.new (oneDistrict 1))
        someTasks = some s ∧ Consistent s.db :=
  run_consistent exactPlatform (oneDistrict_consistent 1) someTasks (by decide +kernel) someTasks
    (List.prefix_refl _)

/-- The database after an order in a district whose next number is the last there is. -/
def afterLast : Database :=
  ((Session.new (oneDistrict 2147483646)).runTask exactPlatform (.newOrder oneOrder, [])).db

/-- The order gets the last number, and the next one is the smallest `int`. -/
theorem not_consistent_afterLast : Consistent (oneDistrict 2147483646) ∧ ¬ Consistent afterLast := by
  refine ⟨oneDistrict_consistent _, fun h => ?_⟩
  have hnext : afterLast.district.rows.map (fun d => (d.key, d.dNextOId)) =
      [((1, 1), -2147483648)] := by decide +kernel
  have horders : afterLast.orders.map Order.place =
      [((1, 1), 2147483646), ((1, 1), 2147483647)] := by decide +kernel
  obtain ⟨d, hd, heq⟩ := List.mem_map.mp (hnext ▸ List.mem_singleton_self ((1, 1), -2147483648))
  obtain ⟨hkey, hnext⟩ := Prod.mk.inj heq
  have hlast : (2147483647 : Int) ∈ orderIds afterLast d := by
    rw [orderIds, hkey, horders]
    simp
  have := (h.nextOId d hd).2 hlast
  omega

end CxxLab.DuckdbLab
