import CxxLab.DuckdbLab.Consistency
import CxxLab.Lib.Rounding

/-!
# The customer of a payment

`DoPayment` reads a customer, computes what is to stand in three of its columns, and writes that to
a customer: one of `(w_id, d_id)` is read, one of `(c_w_id, c_d_id)` is written. For a local payment
they are the same. For a payment through another warehouse they are two people who have the same
`C_ID`, and the second gets what the first has, less the amount.

The decimals of the database are exact, but the driver computes in floats and writes six digits of
them. So also a local payment can leave its customer with a balance that is some cents off. What floats
are and what `<<` makes of them is a parameter, as everywhere in the driver, and so
`doPayment_charges_iff` asks both at once: whether the floats come from the row that is looked up to the
account that is charged. `floatPlatform` are the floats of C++, and whole amounts are safe with
them (`canCharge_local`).

Only one statement of the transaction writes to CUSTOMER, so the rest of the proof is that the others
leave the table alone.
-/

set_option autoImplicit false

namespace CxxLab.DuckdbLab

open CxxLab.Lib Exec

/-- The columns a payment is about, under the key of their row. -/
def Customer.account (r : Customer) : (Int × Int × Int) × ℚ × ℚ × Int :=
  (r.key, r.cBalance, r.cYtdPayment, r.cPaymentCnt)

namespace PaymentContext

variable {F : Type}

/-- The customer whose payment it is. -/
def payer (ctx : PaymentContext F) : Int × Int × Int :=
  (ctx.cWId.toInt, ctx.cDId.toInt, ctx.cId.toInt)

/-- The customer that is looked up. -/
def lookedUp (ctx : PaymentContext F) : Int × Int × Int :=
  (ctx.wId.toInt, ctx.dId.toInt, ctx.cId.toInt)

end PaymentContext

/-- `C_PAYMENT_CNT` plus one, as an `int`. -/
def countUp (cnt : Int) : Int := (Int32.ofInt cnt + 1).toInt

section Charges

variable {F : Type} (p : Platform F) (value : F → ℚ)

/-- A decimal less a float, as floats subtract and as `<<` writes the difference. -/
def Platform.minus (x : ℚ) (y : F) : Option ℚ := p.written (p.sub (p.ofDecimal x) y)

/-- A decimal and a float, as floats add and as `<<` writes the sum. -/
def Platform.plus (x : ℚ) (y : F) : Option ℚ := p.written (p.add (p.ofDecimal x) y)

/-- **The payment is charged** to its customer, and to no other: the amount is taken from the balance and
added to what has been paid, and the payment is counted. These are exact numbers, and `value` is the
number that a float is. -/
def Charges (ctx : PaymentContext F) (d d' : Database) : Prop :=
  d'.customer.rows.map Customer.account = d.customer.rows.map fun t =>
    if t.key = ctx.payer then
      (t.key, t.cBalance - value ctx.hAmount, t.cYtdPayment + value ctx.hAmount, t.cPaymentCnt + 1)
    else t.account

/-- From the account of one row, floats come to what the account of another is after the payment. Where the
rows are one, that is to say that no digit is lost. -/
structure Settles (ctx : PaymentContext F) (r t : Customer) : Prop where
  balance : p.minus r.cBalance ctx.hAmount = some (t.cBalance - value ctx.hAmount)
  ytdPayment : p.plus r.cYtdPayment ctx.hAmount = some (t.cYtdPayment + value ctx.hAmount)
  paymentCnt : countUp r.cPaymentCnt = t.cPaymentCnt + 1

/-- The row that is looked up settles the account that is charged. -/
def CanCharge (ctx : PaymentContext F) (d : Database) : Prop :=
  ∀ r ∈ d.customer.rows, r.key = ctx.lookedUp → ∀ t ∈ d.customer.rows, t.key = ctx.payer →
    Settles p value ctx r t

end Charges

/-- An account after the statement of `PAYMENT_UpdateGCCustomer`, with these values in its columns. -/
def setAccount {F : Type} (ctx : PaymentContext F) (columns : ℚ × ℚ × Int) (t : Customer) :
    (Int × Int × Int) × ℚ × ℚ × Int :=
  if t.key = ctx.payer then (t.key, columns) else t.account

/-! ## Statements that leave CUSTOMER alone -/

/-- With these customers. -/
def Customers (t : Table Customer Customer.key) (s : Session) : Prop := s.db.customer = t

/-- However it ended. -/
def Anyhow (_ : Stop) (_ : Session) : Prop := True

variable {t : Table Customer Customer.key} {α : Type}

theorem Customers.stable (I : Session → Prop)
    (hI : ∀ s outcomes, I s → I { s with outcomes := outcomes }) :
    Stable I Anyhow where
  outcomes := hI
  rollback := fun _ _ => trivial
  throws := fun _ _ => trivial

theorem query_customers {statement : Statement α}
    (h : ∀ d a d', statement d = some (a, d') → d'.customer = d.customer) :
    Triple (Customers t) (query statement) (fun _ => Customers t) Anyhow :=
  (Customers.stable _ fun _ _ => id).query fun s a db hs hst => (h s.db a db hst).trans hs

section Keeps

variable {F : Type} {p : Platform F}

theorem keeps_paymentUpdateWarehouseBalance {hAmount : F} {wId : IdType} (d : Database) (a : Unit)
    (d' : Database) (h : paymentUpdateWarehouseBalance p hAmount wId d = some (a, d')) :
    d'.customer = d.customer := by
  obtain ⟨amount, -, h⟩ := Option.bind_eq_some_iff.mp h
  cases h
  rfl

theorem keeps_paymentUpdateDistrictBalance {hAmount : F} {dWId dId : IdType} (d : Database) (a : Unit)
    (d' : Database) (h : paymentUpdateDistrictBalance p hAmount dWId dId d = some (a, d')) :
    d'.customer = d.customer := by
  obtain ⟨amount, -, h⟩ := Option.bind_eq_some_iff.mp h
  cases h
  rfl

theorem keeps_paymentInsertHistory {cId cDId cWId dId wId : IdType} {hDate : String} {hAmount : F}
    {hData : String} (d : Database) (a : Unit) (d' : Database)
    (h : paymentInsertHistory p cId cDId cWId dId wId hDate hAmount hData d = some (a, d')) :
    d'.customer = d.customer := by
  obtain ⟨amount, -, h⟩ := Option.bind_eq_some_iff.mp h
  cases h
  rfl

end Keeps

theorem query_reads (f : Database → α) :
    Triple (Customers t) (query (reads f)) (fun _ => Customers t) Anyhow :=
  query_customers (by rintro d a d' ⟨⟩; rfl)

theorem startTransaction_customers :
    Triple (Customers t) startTransaction (fun _ => Customers t) Anyhow := by
  have hI := Customers.stable (Customers t) fun _ _ => id
  have hconn : Triple (Customers t) connStart (fun _ => Customers t) Anyhow := by
    refine hI.connCall rfl (.pure fun _ => id) (Triple.get_bind fun s hs => ?_)
    cases s.begun with
    | some d =>
      refine .pure ?_
      rintro s rfl
      exact hs
    | none =>
      refine (Triple.modify (Q := fun _ => Customers t) ?_).bind fun _ => .pure fun _ => id
      rintro s rfl
      exact hs
  refine hconn.bind fun started => ?_
  cases started with
  | true => exact .pure fun _ => id
  | false =>
    refine (Triple.modify (Q := fun _ _ => True) fun _ _ => trivial).bind fun _ => ?_
    exact .throw fun _ _ => trivial

theorem connCommit_keeps {P : Database → Prop} :
    Triple (fun s => P s.db) connCommit (fun _ s => P s.db) Anyhow := by
  have hI := Customers.stable (fun s => P s.db) fun _ _ => id
  refine hI.connCall rfl (.throw fun _ _ => trivial) (Triple.get_bind fun s hs => ?_)
  cases s.begun with
  | none => exact .throw fun _ _ => trivial
  | some d =>
    refine Triple.modify ?_
    rintro s rfl
    exact hs

/-! ## The statement that writes to it -/

/-- What an update of one customer does to the accounts. -/
theorem map_account_update {cWId cDId cId : IdType} {balance ytdPayment : ℚ} {cnt : Int}
    {f : Customer → Customer} (hf : ∀ r, (f r).account = (r.key, balance, ytdPayment, cnt))
    (rows : List Customer) :
    (updateWhere (fun r => r.cWId = cWId.toInt ∧ r.cDId = cDId.toInt ∧ r.cId = cId.toInt) f rows).map
        Customer.account =
      rows.map fun t => if t.key = (cWId.toInt, cDId.toInt, cId.toInt) then
        (t.key, balance, ytdPayment, cnt) else t.account := by
  rw [updateWhere, List.map_map]
  refine List.map_congr_left fun t _ => ?_
  simp only [Function.comp_apply, Customer.key, Prod.mk.injEq, decide_eq_true_eq]
  split
  · exact hf t
  · rfl

variable {F : Type} {p : Platform F}

theorem paymentUpdateBCCustomer_account {balance ytdPayment : F} {cnt cWId cDId cId : IdType}
    {cData : String} {d d' : Database}
    (h : paymentUpdateBCCustomer p balance ytdPayment cnt cData cWId cDId cId d = some ((), d')) :
    ∃ balance' ytdPayment', p.written balance = some balance' ∧
      p.written ytdPayment = some ytdPayment' ∧
      d'.customer.rows.map Customer.account = d.customer.rows.map fun t =>
        if t.key = (cWId.toInt, cDId.toInt, cId.toInt) then
          (t.key, balance', ytdPayment', cnt.toInt) else t.account := by
  obtain ⟨balance', hbalance, h⟩ := Option.bind_eq_some_iff.mp h
  obtain ⟨ytdPayment', hytd, h⟩ := Option.bind_eq_some_iff.mp h
  cases h
  exact ⟨balance', ytdPayment', hbalance, hytd, map_account_update (fun _ => rfl) _⟩

theorem paymentUpdateGCCustomer_account {balance ytdPayment : F} {cnt cWId cDId cId : IdType}
    {d d' : Database}
    (h : paymentUpdateGCCustomer p balance ytdPayment cnt cWId cDId cId d = some ((), d')) :
    ∃ balance' ytdPayment', p.written balance = some balance' ∧
      p.written ytdPayment = some ytdPayment' ∧
      d'.customer.rows.map Customer.account = d.customer.rows.map fun t =>
        if t.key = (cWId.toInt, cDId.toInt, cId.toInt) then
          (t.key, balance', ytdPayment', cnt.toInt) else t.account := by
  obtain ⟨balance', hbalance, h⟩ := Option.bind_eq_some_iff.mp h
  obtain ⟨ytdPayment', hytd, h⟩ := Option.bind_eq_some_iff.mp h
  cases h
  exact ⟨balance', ytdPayment', hbalance, hytd, map_account_update (fun _ => rfl) _⟩

/-! ## The transaction -/

/-- A customer given by its id is one there is, under the key that is looked up. -/
theorem paymentCustomer_byId {ctx : PaymentContext F} (hid : ctx.cLast = "") :
    Triple (Customers t) (paymentCustomer ctx)
      (fun row s => (row.1 = ctx.cId ∧ row.2 ∈ t.rows ∧ row.2.key = ctx.lookedUp) ∧ Customers t s)
      Anyhow := by
  have hempty : ctx.cLast.isEmpty = true := by rw [hid]; rfl
  rw [paymentCustomer, if_pos hempty]
  have hI := Customers.stable (Customers t) fun _ _ => id
  have hrows : Triple (Customers t)
      (query (paymentGetCustomerByCustomerId ctx.wId ctx.dId ctx.cId))
      (fun rows s => (∀ r ∈ rows, r ∈ t.rows ∧ r.key = ctx.lookedUp) ∧ Customers t s) Anyhow := by
    refine hI.query ?_
    rintro s rows db rfl ⟨⟩
    refine ⟨fun r hr => ?_, rfl⟩
    obtain ⟨hmem, hkey⟩ := List.mem_filter.mp hr
    simp only [decide_eq_true_eq] at hkey
    exact ⟨hmem, Prod.ext hkey.1 (Prod.ext hkey.2.1 hkey.2.2)⟩
  refine hrows.bind fun rows => pull fun hall => ?_
  refine (hI.getRow rows 0).bind fun r => pull fun hr => .pure fun s hs => ?_
  exact ⟨⟨rfl, hall r (List.mem_of_getElem? hr)⟩, hs⟩

/-- What a payment makes of the columns of a row. -/
structure Makes (p : Platform F) (ctx : PaymentContext F) (r : Customer)
    (columns : ℚ × ℚ × Int) : Prop where
  balance : p.minus r.cBalance ctx.hAmount = some columns.1
  ytdPayment : p.plus r.cYtdPayment ctx.hAmount = some columns.2.1
  paymentCnt : countUp r.cPaymentCnt = columns.2.2

/-- **A payment** sets the account of its customer from the customer it looked up. -/
theorem doPayment_account {ctx : PaymentContext F} (hid : ctx.cLast = "") :
    Triple (Customers t) (doPayment p ctx)
      (fun _ s => ∃ r ∈ t.rows, r.key = ctx.lookedUp ∧ ∃ columns, Makes p ctx r columns ∧
        s.db.customer.rows.map Customer.account = t.rows.map (setAccount ctx columns)) Anyhow := by
  have hI := Customers.stable (Customers t) fun _ _ => id
  refine startTransaction_customers.bind fun _ => ?_
  refine (paymentCustomer_byId hid).bind fun row => pull fun hrow => ?_
  obtain ⟨hcId, hmem, hkey⟩ := hrow
  refine (hI.getId row.2.cPaymentCnt).bind fun cnt => pull fun hcnt => ?_
  refine (query_reads _).bind fun warehouses => (hI.getRow warehouses 0).bind fun warehouse => ?_
  refine pull fun _ => (query_reads _).bind fun districts => ?_
  refine (hI.getRow districts 0).bind fun district => pull fun _ => ?_
  refine (query_customers keeps_paymentUpdateWarehouseBalance).bind fun _ => ?_
  refine (query_customers keeps_paymentUpdateDistrictBalance).bind fun _ => ?_
  have hcount : countUp row.2.cPaymentCnt = (cnt + 1).toInt := by
    rw [countUp, ← hcnt, Int32.ofInt_toInt]
  -- What holds from the update on.
  let Set (s : Session) : Prop := ∃ columns, Makes p ctx row.2 columns ∧
    s.db.customer.rows.map Customer.account = t.rows.map (setAccount ctx columns)
  have hend : ∀ {hDate : String} {hData : String},
      Triple Set
        (do
          query (paymentInsertHistory p row.1 ctx.cDId ctx.cWId ctx.dId ctx.wId hDate ctx.hAmount hData)
          connCommit)
        (fun _ s => ∃ r ∈ t.rows, r.key = ctx.lookedUp ∧ ∃ columns, Makes p ctx r columns ∧
          s.db.customer.rows.map Customer.account = t.rows.map (setAccount ctx columns)) Anyhow := by
    intro hDate hData
    have hJ := Customers.stable Set fun _ _ => id
    refine Triple.bind (Q := fun _ => Set) ?_ fun _ => ?_
    · refine hJ.query fun s a db hs hst => ?_
      obtain ⟨columns, hmakes, hrows⟩ := hs
      refine ⟨columns, hmakes, ?_⟩
      show db.customer.rows.map Customer.account = _
      rw [keeps_paymentInsertHistory s.db a db hst]
      exact hrows
    · refine (connCommit_keeps (P := fun db => ∃ columns, Makes p ctx row.2 columns ∧
        db.customer.rows.map Customer.account = t.rows.map (setAccount ctx columns))).post ?_
      exact fun _ s hs => ⟨row.2, hmem, hkey, hs⟩
  refine Triple.ite (fun _ => ?_) fun _ => ?_
  · refine (hI.query fun s _ db hs hst => ?_).bind fun _ => hend
    obtain ⟨balance, ytdPayment, hbalance, hytd, hrows⟩ := paymentUpdateBCCustomer_account hst
    refine ⟨(balance, ytdPayment, (cnt + 1).toInt), ⟨hbalance, hytd, hcount⟩, ?_⟩
    rw [← hs, hcId] at *
    exact hrows
  · refine (hI.query fun s _ db hs hst => ?_).bind fun _ => hend
    obtain ⟨balance, ytdPayment, hbalance, hytd, hrows⟩ := paymentUpdateGCCustomer_account hst
    refine ⟨(balance, ytdPayment, (cnt + 1).toInt), ⟨hbalance, hytd, hcount⟩, ?_⟩
    rw [← hs, hcId] at *
    exact hrows

/-- **A payment is charged to its customer if and only if** the row that is looked up settles the
account. It holds of every arithmetic, and whether the payment is a local one or one through another
warehouse is not asked. -/
theorem doPayment_charges_iff (p : Platform F) (value : F → ℚ) {ctx : PaymentContext F}
    (hid : ctx.cLast = "") {s s' : Session} (hrun : exec (doPayment p ctx) s = (.ok (), s')) :
    Charges value ctx s.db s'.db ↔ CanCharge p value ctx s.db := by
  have hset := doPayment_account (p := p) (t := s.db.customer) hid s rfl
  rw [hrun] at hset
  obtain ⟨r, hmem, hkey, columns, hmakes, hrows⟩ := hset
  rw [Charges, hrows, List.map_inj_left]
  have hrow : ∀ t : Customer, (setAccount ctx columns t = if t.key = ctx.payer then
        (t.key, t.cBalance - value ctx.hAmount, t.cYtdPayment + value ctx.hAmount, t.cPaymentCnt + 1)
      else t.account) ↔ (t.key = ctx.payer → Settles p value ctx r t) := by
    intro t
    rw [setAccount]
    split
    · rename_i hpayer
      obtain ⟨balance, ytdPayment, cnt⟩ := columns
      simp only [hpayer, Prod.mk.injEq, true_and, forall_const]
      constructor
      · rintro ⟨rfl, rfl, rfl⟩
        exact ⟨hmakes.balance, hmakes.ytdPayment, hmakes.paymentCnt⟩
      · intro h
        exact ⟨Option.some_inj.mp (hmakes.balance.symm.trans h.balance),
          Option.some_inj.mp (hmakes.ytdPayment.symm.trans h.ytdPayment),
          hmakes.paymentCnt.symm.trans h.paymentCnt⟩
    · rename_i hother
      simp [hother]
  constructor
  · intro h r' hr' hkey' t ht hpayer
    obtain rfl := s.db.customer.eq_of_key hr' hmem (hkey'.trans hkey.symm)
    exact (hrow t).mp (h t ht) hpayer
  · intro h t ht
    exact (hrow t).mpr (h r hmem hkey t ht)

/-! ## The floats of C++ -/

/-- A `float`: 24 binary digits, the last of them at 2^-149 at least. `none` is one that is no number. -/
def roundFloat (x : ℚ) : Option ℚ :=
  let y := roundDigits 2 24 (-149) x
  if |y| < 2 ^ 128 then some y else none

/-- What the C++ standard says of floats on a machine with IEEE 754: the operations are rounded, and
`<<` writes six digits. -/
def floatPlatform : Platform (Option ℚ) where
  ofDecimal := roundFloat
  add x y := do roundFloat ((← x) + (← y))
  sub x y := do roundFloat ((← x) - (← y))
  mul n x := do roundFloat ((← roundFloat n.toInt) * (← x))
  toId x := Int32.ofInt ((x.getD 0).num.tdiv (x.getD 0).den)
  written x := x.map fun x => roundTo (10 ^ lastDigit 10 6 x) x
  sumToId sum := sum.map fun x => Int32.ofInt x.floor
  expression _ := none

/-- The number that a float is. -/
def floatValue (x : Option ℚ) : ℚ := x.getD 0

/-- An amount without cents, in six digits. -/
def Whole (n : ℤ) : Prop := n.natAbs < 10 ^ 6

instance (n : ℤ) : Decidable (Whole n) := inferInstanceAs (Decidable (n.natAbs < _))

theorem roundFloat_whole {n : ℤ} (hn : Whole n) : roundFloat n = some (n : ℚ) := by
  have hround : roundDigits 2 24 (-149) (n : ℚ) = n :=
    roundDigits_intCast (by decide) (by decide) (by decide) (hn.trans (by decide))
  have habs : |(n : ℚ)| < 2 ^ 128 := by
    rw [← Int.cast_abs, Int.abs_eq_natAbs, Int.cast_natCast]
    exact_mod_cast hn.trans (by decide : 10 ^ 6 < 2 ^ 128)
  simp only [roundFloat, hround, if_pos habs]

theorem written_whole {n : ℤ} (hn : Whole n) : floatPlatform.written (some n) = some (n : ℚ) := by
  have hround : roundTo ((10 : ℕ) ^ lastDigit 10 6 (n : ℚ)) n = n :=
    roundTo_zpow_intCast (by decide) (lastDigit_intCast_le (by decide) hn) n
  simpa [floatPlatform] using hround

theorem minus_whole {m n : ℤ} (hm : Whole m) (hminus : Whole (m - n)) :
    floatPlatform.minus m (some n) = some ((m - n : ℤ) : ℚ) := by
  have hsub : floatPlatform.sub (floatPlatform.ofDecimal m) (some n) = some ((m - n : ℤ) : ℚ) := by
    simp only [floatPlatform, roundFloat_whole hm, Option.bind_eq_bind, Option.bind_some]
    rw [← Int.cast_sub]
    exact roundFloat_whole hminus
  rw [Platform.minus, hsub, written_whole hminus]

theorem plus_whole {m n : ℤ} (hm : Whole m) (hplus : Whole (m + n)) :
    floatPlatform.plus m (some n) = some ((m + n : ℤ) : ℚ) := by
  have hadd : floatPlatform.add (floatPlatform.ofDecimal m) (some n) = some ((m + n : ℤ) : ℚ) := by
    simp only [floatPlatform, roundFloat_whole hm, Option.bind_eq_bind, Option.bind_some]
    rw [← Int.cast_add]
    exact roundFloat_whole hplus
  rw [Platform.plus, hadd, written_whole hplus]

theorem countUp_of_lt {cnt : Int} (hlow : -2 ^ 31 ≤ cnt) (hhigh : cnt < 2 ^ 31 - 1) :
    countUp cnt = cnt + 1 := by
  have hcnt : (Int32.ofInt cnt).toInt = cnt := Int32.toInt_ofInt_of_le hlow (by omega)
  rw [countUp, toInt_add_one (by rw [hcnt, Int32.toInt_maxValue]; omega), hcnt]

/-- **A local payment of a whole amount** settles its own account, if what it has and what it gets are
whole amounts and the payments can be counted. -/
theorem canCharge_local {ctx : PaymentContext (Option ℚ)} {d : Database} (hw : ctx.cWId = ctx.wId)
    (hd : ctx.cDId = ctx.dId) {n : ℤ} (hamount : ctx.hAmount = some (n : ℚ))
    (hrows : ∀ r ∈ d.customer.rows, r.key = ctx.payer → ∃ balance ytdPayment : ℤ,
      r.cBalance = balance ∧ r.cYtdPayment = ytdPayment ∧ Whole balance ∧ Whole (balance - n) ∧
        Whole ytdPayment ∧ Whole (ytdPayment + n) ∧
        -2 ^ 31 ≤ r.cPaymentCnt ∧ r.cPaymentCnt < 2 ^ 31 - 1) :
    CanCharge floatPlatform floatValue ctx d := by
  intro r hr hkey t ht hpayer
  have hsame : r.key = t.key := by
    rw [hkey, hpayer, PaymentContext.lookedUp, PaymentContext.payer, hw, hd]
  obtain rfl := d.customer.eq_of_key hr ht hsame
  obtain ⟨balance, ytdPayment, hbalance, hytd, hb, hb', hy, hy', hlow, hhigh⟩ := hrows r hr hpayer
  refine ⟨?_, ?_, countUp_of_lt hlow hhigh⟩
  · rw [hbalance, hamount, minus_whole hb hb', floatValue, Option.getD_some, Int.cast_sub]
  · rw [hytd, hamount, plus_whole hy hy', floatValue, Option.getD_some, Int.cast_add]

/-! ## Two warehouses -/

/-- Two warehouses with a district each. Ann has paid 10, Bob 50, and Eve 10000. -/
def twoWarehouses : Database where
  item := []
  warehouse := ⟨[⟨1, "W", 0, 30⟩, ⟨2, "X", 0, 30⟩], by decide⟩
  district := ⟨[⟨1, 1, "D", 0, 30, 2⟩, ⟨1, 2, "E", 0, 30, 2⟩], by decide⟩
  customer := ⟨[⟨1, 1, 1, "ANN", "BARBARBAR", "GC", 0, -10, 10, 1, ""⟩,
    ⟨1, 1, 2, "BOB", "BARBARBAR", "GC", 0, -50, 50, 3, ""⟩,
    ⟨2, 1, 1, "EVE", "BARBARBAR", "GC", 0, -10000, 10000, 1, ""⟩], by decide⟩
  stock := []
  orders := []
  newOrder := []
  orderLine := []
  history := []

/-- The connection after a payment. -/
def afterOne (ctx : PaymentContext (Option ℚ)) : Session :=
  (exec (doPayment floatPlatform ctx) (Session.new twoWarehouses)).2

/-- A payment of Bob's, at his own warehouse. -/
def localPayment : PaymentContext (Option ℚ) := ⟨2, 1, some 5, 2, 1, 1, "", ""⟩

/-- A payment of Bob's, at the first warehouse. -/
def remotePayment : PaymentContext (Option ℚ) := ⟨1, 1, some 5, 2, 1, 1, "", ""⟩

/-- A payment of Eve's, of 1234.56. -/
def centsPayment : PaymentContext (Option ℚ) := ⟨1, 1, roundFloat (123456 / 100), 1, 1, 2, "", ""⟩

theorem doPayment_charges_iff_local :
    exec (doPayment floatPlatform localPayment) (Session.new twoWarehouses) =
      (.ok (), afterOne localPayment) ∧
    Charges floatValue localPayment twoWarehouses (afterOne localPayment).db := by
  have hrun : exec (doPayment floatPlatform localPayment) (Session.new twoWarehouses) =
      (.ok (), afterOne localPayment) := Prod.ext (by decide +kernel) rfl
  refine ⟨hrun, (doPayment_charges_iff floatPlatform floatValue rfl hrun).mpr ?_⟩
  refine canCharge_local rfl rfl (n := 5) rfl ?_
  refine List.forall_mem_cons.mpr ⟨fun h => absurd h (by decide), ?_⟩
  refine List.forall_mem_cons.mpr ⟨fun _ => ⟨-50, 50, ?_⟩, ?_⟩
  · exact ⟨by norm_num, by norm_num, by decide, by decide, by decide, by decide, by decide, by decide⟩
  · exact List.forall_mem_singleton.mpr fun h => absurd h (by decide)

/-- Bob is left with what Ann has, less the amount. Eve is left with -11234.6, where it should be
-11234.56. -/
theorem not_charges_remote :
    (exec (doPayment floatPlatform remotePayment) (Session.new twoWarehouses) =
        (.ok (), afterOne remotePayment) ∧
      (afterOne remotePayment).db.customer.rows.map Customer.account =
        [((1, 1, 1), -10, 10, 1), ((2, 1, 1), -15, 15, 2), ((1, 1, 2), -10000, 10000, 1)] ∧
      ¬ Charges floatValue remotePayment twoWarehouses (afterOne remotePayment).db) ∧
    exec (doPayment floatPlatform centsPayment) (Session.new twoWarehouses) =
        (.ok (), afterOne centsPayment) ∧
      (afterOne centsPayment).db.customer.rows.map Customer.account =
        [((1, 1, 1), -10, 10, 1), ((2, 1, 1), -50, 50, 3), ((1, 1, 2), -112346 / 10, 112346 / 10, 2)] ∧
      ¬ Charges floatValue centsPayment twoWarehouses (afterOne centsPayment).db := by
  refine ⟨⟨Prod.ext (by decide +kernel) rfl, by decide +kernel, ?_⟩,
    Prod.ext (by decide +kernel) rfl, by decide +kernel, ?_⟩
  · unfold Charges
    decide +kernel
  · unfold Charges
    decide +kernel

end CxxLab.DuckdbLab
