import CxxLab.Lib.Draws
import CxxLab.DuckdbLab.Driver

/-!
# `duckdb_lab/TpccFactory.cpp` — the contexts of the tasks

`NextContext` makes up a transaction with `RandomNumber`, of which nothing is known but the range. It
has three loops that draw until they like what they get: the item ids of an order, which are not to
repeat, and the other warehouse of an order line or of a payment.

Two of them are not what they were meant to be. `MockItemIDS` loops while it has *enough* ids, so an
order has none. And the payment draws its other warehouse from `wh_start_` to `wh_start_`.

Ids are numbers here; none of those that are drawn is near the end of `int`.
-/

set_option autoImplicit false

namespace CxxLab.DuckdbLab

open CxxLab.Lib Draws

/-! ## Settings -/

structure ScaleParameters where
  warehouses : Nat
  items : Nat
  districtsPerWh : Nat
  customersPerDistrict : Nat
  newOrdersPerDistrict : Nat
  whStart : Nat
  whEnd : Nat

/-- `ScaleParameters::Build`, with its assertion. -/
def ScaleParameters.build (scaleFactor : Nat) : Option ScaleParameters :=
  if scaleFactor ≤ 10000 ∧ scaleFactor > 0 then
    some {
      items := 100000
      districtsPerWh := 10
      newOrdersPerDistrict := 900
      customersPerDistrict := 3000
      warehouses := scaleFactor
      whStart := 1
      whEnd := 1 + scaleFactor - 1 }
  else none

/-- `TpccSettings`: how many of a hundred transactions are of a type. -/
structure TpccSettings where
  stockLevelP : Int
  deliveryP : Int
  orderStatusP : Int
  paymentP : Int
  newOrderP : Int
  sp : ScaleParameters

namespace TpccSettings

/-- `TpccSettings::IsValid`. -/
def IsValid (st : TpccSettings) : Prop :=
  0 ≤ st.stockLevelP ∧ 0 ≤ st.deliveryP ∧ 0 ≤ st.orderStatusP ∧ 0 ≤ st.paymentP ∧
    0 ≤ st.newOrderP ∧
    st.stockLevelP + st.deliveryP + st.orderStatusP + st.paymentP + st.newOrderP = 100

/-- What `IsValid` sets: `GetStockLevelUpper` and the others. -/
def stockLevelUpper (st : TpccSettings) : Int := st.stockLevelP

def deliveryUpper (st : TpccSettings) : Int := st.stockLevelUpper + st.deliveryP

def orderStatusUpper (st : TpccSettings) : Int := st.deliveryUpper + st.orderStatusP

def paymentUpper (st : TpccSettings) : Int := st.orderStatusUpper + st.paymentP

end TpccSettings

/-- `RNGenerator`: the constants it was made with. -/
structure RNGenerator where
  cLast : Nat
  cId : Nat
  orderLineItemId : Nat

/-- `RNGenerator::IDType`. -/
inductive IDType where
  | lastName
  | customer
  | item

def IDType.value : IDType → Nat
  | .lastName => 255
  | .customer => 1023
  | .item => 8191

/-- The constant of a type. -/
def RNGenerator.c (rng : RNGenerator) : IDType → Nat
  | .lastName => rng.cLast
  | .customer => rng.cId
  | .item => rng.orderLineItemId

/-- `RNGenerator::Produce`. -/
def RNGenerator.produce (rng : RNGenerator) (type : IDType) (start stop : Nat) : Draws Nat := do
  let part1 ← draw 0 type.value
  let part2 ← draw start stop
  return ((part1 ||| part2) + rng.c type) % (stop - start + 1) + start

/-! ## `TpccMocker` -/

namespace TpccMocker

variable (st : TpccSettings) (rng : RNGenerator)

def mockWarehouseID : Draws Nat := draw st.sp.whStart st.sp.whEnd

def mockDistrictID : Draws Nat := draw 1 st.sp.districtsPerWh

def syllables : List String :=
  ["BAR", "OUGHT", "ABLE", "PRI", "PRES", "ESE", "ANTI", "CALLY", "ATION", "EING"]

def mockLastName : Draws String := do
  let number ← rng.produce .lastName 0 (min (st.sp.customersPerDistrict - 1) 999)
  return String.join ([number / 100, number / 10 % 10, number % 10].map fun i => syllables.getD i "")

def mockCustomerID : Draws Nat := rng.produce .customer 1 st.sp.customersPerDistrict

def mockItemID : Draws Nat := rng.produce .item 1 st.sp.items

/-- `TpccMocker::MockItemIDS`. What is in `id_set` is what is in `ids`. -/
def mockItemIDS (n : Nat) : Draws (List Nat) :=
  loop (fun ids => do
    if ids.length ≥ n then
      let id ← mockItemID st rng
      return .inr (if id ∈ ids then ids else ids ++ [id])
    else return .inl ids) []

/-- The amount of a payment, in hundredths. -/
def mockPaymentAmount : Draws Nat := draw 100 500000

end TpccMocker

/-! ## `TpccFactory` -/

namespace TpccFactory

open TpccMocker

/-- `NewOrderContext`, as `NextContext` fills it. -/
structure NewOrderContext where
  wId : Nat
  dId : Nat
  cId : Nat
  olCnt : Nat
  oEntryD : String
  iIds : List Nat
  iWIds : List Nat
  iQtys : List Nat
  allLocal : Bool
  deriving DecidableEq

/-- `TpccContext`, by its type. -/
inductive Context (F : Type) where
  | stockLevel (ctx : StockLevelContext)
  | delivery (ctx : DeliveryContext)
  | orderStatus (ctx : OrderStatusContext)
  | payment (ctx : PaymentContext F)
  | newOrder (ctx : NewOrderContext)

/-- `while (true)`, until it is not this one. -/
def otherWarehouse (pick : Draws Nat) (wId : Nat) : Draws Nat :=
  loop (fun _ => do
    let w ← pick
    if w ≠ wId then return .inl w else return .inr ()) ()

/-- The loop of a payment through another warehouse. -/
def otherPaymentWarehouse (sp : ScaleParameters) (wId : Nat) : Draws Nat :=
  otherWarehouse (draw sp.whStart sp.whStart) wId

/-- The loop of an order line from another warehouse. -/
def otherSupplyWarehouse (st : TpccSettings) (wId : Nat) : Draws Nat :=
  otherWarehouse (mockWarehouseID st) wId

/-- The warehouse of a line: one in a hundred is another one. -/
def lineWarehouse (st : TpccSettings) (ctx : NewOrderContext) : Draws NewOrderContext := do
  let r ← draw 1 100
  if r = 1 ∧ st.sp.warehouses > 1 then
    let wId ← otherSupplyWarehouse st ctx.wId
    return { ctx with iWIds := ctx.iWIds ++ [wId], allLocal := false }
  else return { ctx with iWIds := ctx.iWIds ++ [ctx.wId] }

/-- The loop over the lines of an order. -/
def fillLines (st : TpccSettings) : Nat → NewOrderContext → Draws NewOrderContext
  | 0, ctx => return ctx
  | n + 1, ctx => do
    let ctx ← lineWarehouse st ctx
    let qty ← draw 1 10
    fillLines st n { ctx with iQtys := ctx.iQtys ++ [qty] }

/-- The NEW_ORDER branch of `NextContext`. -/
def nextNewOrder (st : TpccSettings) (rng : RNGenerator) (now : String) :
    Draws NewOrderContext := do
  let wId ← mockWarehouseID st
  let dId ← mockDistrictID st
  let cId ← mockCustomerID st rng
  let olCnt ← draw 5 15
  let iIds ← mockItemIDS st rng olCnt
  fillLines st olCnt ⟨wId, dId, cId, olCnt, now, iIds, [], [], true⟩

/-- The PAYMENT branch. A context starts with zeros and an empty name. -/
def nextPayment {F : Type} (st : TpccSettings) (rng : RNGenerator) (hundredths : Nat → F)
    (now : String) : Draws (PaymentContext F) := do
  let wId ← mockWarehouseID st
  let dId ← mockDistrictID st
  let amount ← mockPaymentAmount
  let isLocal ←
    if st.sp.warehouses = 1 then pure true else do
      let r ← draw 1 100
      pure (decide (r ≤ 85))
  let (cWId, cDId) ←
    if isLocal then pure (wId, dId) else do
      let cWId ← otherPaymentWarehouse st.sp wId
      let cDId ← mockDistrictID st
      pure (cWId, cDId)
  let r ← draw 1 100
  let (cLast, cId) ←
    if r ≤ 60 then do
      let cLast ← mockLastName st rng
      pure (cLast, 0)
    else do
      let cId ← mockCustomerID st rng
      pure ("", cId)
  return {
    wId := .ofNat wId, dId := .ofNat dId, hAmount := hundredths amount
    cWId := .ofNat cWId, cDId := .ofNat cDId, cId := .ofNat cId, cLast := cLast, hDate := now }

/-- `TpccFactory::NextContext`, at this time. -/
def nextContext {F : Type} (st : TpccSettings) (rng : RNGenerator) (hundredths : Nat → F)
    (now : String) : Draws (Context F) := do
  let randVal ← draw 1 100
  if randVal ≤ st.stockLevelUpper then
    let wId ← mockWarehouseID st
    let dId ← mockDistrictID st
    let threshold ← draw 10 20
    return .stockLevel ⟨.ofNat wId, .ofNat dId, .ofNat threshold⟩
  else if randVal ≤ st.deliveryUpper then
    let oCarrierId ← draw 1 10
    let wId ← mockWarehouseID st
    return .delivery ⟨.ofNat wId, .ofNat oCarrierId, now⟩
  else if randVal ≤ st.orderStatusUpper then
    let wId ← mockWarehouseID st
    let dId ← mockDistrictID st
    let r ← draw 1 60
    if r ≤ 60 then
      let cLast ← mockLastName st rng
      return .orderStatus ⟨0, .ofNat wId, .ofNat dId, cLast⟩
    else
      let cId ← mockCustomerID st rng
      return .orderStatus ⟨.ofNat cId, .ofNat wId, .ofNat dId, ""⟩
  else if randVal ≤ st.paymentUpper then
    return .payment (← nextPayment st rng hundredths now)
  else
    return .newOrder (← nextNewOrder st rng now)

/-! ## Orders -/

variable {F : Type} {st : TpccSettings} {rng : RNGenerator} {ctx : NewOrderContext}

/-- **Well-formedness**: a line for each of the items, which are different. -/
structure WellFormed (st : TpccSettings) (ctx : NewOrderContext) : Prop where
  iIds_length : ctx.iIds.length = ctx.olCnt
  iWIds_length : ctx.iWIds.length = ctx.olCnt
  iQtys_length : ctx.iQtys.length = ctx.olCnt
  nodup : ctx.iIds.Nodup
  items : ∀ i ∈ ctx.iIds, 1 ≤ i ∧ i ≤ st.sp.items
  warehouses : ∀ w ∈ ctx.iWIds, st.sp.whStart ≤ w ∧ w ≤ st.sp.whEnd
  allLocal : ctx.allLocal = true ↔ ∀ w ∈ ctx.iWIds, w = ctx.wId

/-- So many lines, whatever the items. -/
structure Lines (st : TpccSettings) (n : Nat) (ctx : NewOrderContext) : Prop where
  wId : st.sp.whStart ≤ ctx.wId ∧ ctx.wId ≤ st.sp.whEnd
  iWIds_length : ctx.iWIds.length = n
  iQtys_length : ctx.iQtys.length = n
  warehouses : ∀ w ∈ ctx.iWIds, st.sp.whStart ≤ w ∧ w ≤ st.sp.whEnd
  quantities : ∀ q ∈ ctx.iQtys, 1 ≤ q ∧ q ≤ 10
  allLocal : ctx.allLocal = true ↔ ∀ w ∈ ctx.iWIds, w = ctx.wId

/-- One line more. -/
theorem Lines.line {n q w : Nat} {allLocal : Bool} (h : Lines st n ctx) (hq : 1 ≤ q ∧ q ≤ 10)
    (hw : st.sp.whStart ≤ w ∧ w ≤ st.sp.whEnd)
    (hlocal : allLocal = true ↔ ctx.allLocal = true ∧ w = ctx.wId) :
    Lines st (n + 1)
      { ctx with iWIds := ctx.iWIds ++ [w], allLocal := allLocal, iQtys := ctx.iQtys ++ [q] } where
  wId := h.wId
  iWIds_length := by simp [h.iWIds_length]
  iQtys_length := by simp [h.iQtys_length]
  warehouses := by
    intro w' hw'
    rcases List.mem_append.mp hw' with hw' | hw'
    · exact h.warehouses w' hw'
    · exact List.mem_singleton.mp hw' ▸ hw
  quantities := by
    intro r hr
    rcases List.mem_append.mp hr with hr | hr
    · exact h.quantities r hr
    · exact List.mem_singleton.mp hr ▸ hq
  allLocal := by simp [hlocal, h.allLocal, or_imp, forall_and]

theorem always_otherWarehouse {pick : Draws Nat} {P : Nat → Prop} (h : Always pick P) (wId : Nat) :
    Always (otherWarehouse pick wId) fun w => P w ∧ w ≠ wId := by
  refine .loop (I := fun _ => True) (fun _ _ => h.bind fun w hw => ?_) trivial
  exact .ite (fun hne => .pure ⟨hw, hne⟩) fun _ => .pure trivial

theorem always_lineWarehouse {n : Nat} (h : Lines st n ctx) :
    Always (lineWarehouse st ctx) fun ctx' => ctx'.iIds = ctx.iIds ∧ ctx'.olCnt = ctx.olCnt ∧
      ∀ q, 1 ≤ q ∧ q ≤ 10 → Lines st (n + 1) { ctx' with iQtys := ctx'.iQtys ++ [q] } := by
  refine (Always.draw 1 100).bind fun r _ => .ite (fun _ => ?_) fun _ => ?_
  · refine (always_otherWarehouse (Always.draw _ _) ctx.wId).bind fun w hw => ?_
    exact .pure ⟨rfl, rfl, fun q hq => h.line hq hw.1
      (iff_of_false Bool.false_ne_true fun hlocal => hw.2 hlocal.2)⟩
  · exact .pure ⟨rfl, rfl, fun q hq => h.line hq h.wId (and_iff_left rfl).symm⟩

theorem always_fillLines : ∀ (n : Nat) {m : Nat} {ctx : NewOrderContext}, Lines st m ctx →
    Always (fillLines st n ctx) fun ctx' =>
      ctx'.iIds = ctx.iIds ∧ ctx'.olCnt = ctx.olCnt ∧ Lines st (m + n) ctx' := by
  intro n
  induction n with
  | zero => intro m ctx h; exact .pure ⟨rfl, rfl, h⟩
  | succ n ih =>
    intro m ctx h
    refine (always_lineWarehouse h).bind fun ctx₁ h₁ => (Always.draw 1 10).bind fun q hq => ?_
    refine (ih (h₁.2.2 q hq)).mono fun ctx' h' => ?_
    rw [Nat.add_comm n 1, ← Nat.add_assoc]
    exact ⟨h'.1.trans h₁.1, h'.2.1.trans h₁.2.1, h'.2.2⟩

/-- **There are enough ids before the first is drawn.** -/
theorem always_mockItemIDS {n : Nat} (hn : 0 < n) :
    Always (mockItemIDS st rng n) fun ids => ids = [] := by
  refine .loop (I := fun ids => ids = []) ?_ rfl
  rintro ids rfl
  exact .ite (fun hge => absurd hge (Nat.not_le.mpr hn)) fun _ => .pure rfl

/-- **What there is in an order**: its lines, and no item. -/
theorem always_nextNewOrder (now : String) :
    Always (nextNewOrder st rng now) fun ctx =>
      5 ≤ ctx.olCnt ∧ ctx.iIds = [] ∧ Lines st ctx.olCnt ctx := by
  refine (Always.draw _ _).bind fun wId hw => (Always.draw _ _).bind fun dId _ => ?_
  refine Always.bind (P := fun _ => True) (fun _ _ _ _ => trivial) fun cId _ => ?_
  refine (Always.draw 5 15).bind fun olCnt hcnt => ?_
  refine (always_mockItemIDS (by omega)).bind fun iIds hids => ?_
  have hnone : Lines st 0 ⟨wId, dId, cId, olCnt, now, iIds, [], [], true⟩ :=
    ⟨hw, rfl, rfl, nofun, nofun, iff_of_true rfl nofun⟩
  refine (always_fillLines olCnt hnone).mono fun ctx hctx => ?_
  obtain ⟨hiIds, holCnt, hlines⟩ := hctx
  rw [Nat.zero_add] at hlines
  rw [holCnt]
  exact ⟨hcnt.1, hiIds.trans hids, hlines⟩

/-- The NEW_ORDER contexts of `NextContext` are those of its NEW_ORDER branch. -/
theorem always_nextContext {hundredths : Nat → F} {now : String} {P : NewOrderContext → Prop}
    (h : Always (nextNewOrder st rng now) P) :
    Always (nextContext st rng hundredths now) fun
      | .newOrder ctx => P ctx
      | _ => True := by
  have hother : ∀ {α : Type} (x : Draws α), Always x fun _ => True := fun _ _ _ _ _ => trivial
  refine (hother _).bind fun r _ => .ite (fun _ => ?_) fun _ => .ite (fun _ => ?_) fun _ =>
    .ite (fun _ => ?_) fun _ => .ite (fun _ => ?_) fun _ => ?_
  · exact (hother _).bind fun _ _ => (hother _).bind fun _ _ => (hother _).bind fun _ _ =>
      .pure trivial
  · exact (hother _).bind fun _ _ => (hother _).bind fun _ _ => .pure trivial
  · refine (hother _).bind fun _ _ => (hother _).bind fun _ _ => (hother _).bind fun _ _ =>
      .ite (fun _ => ?_) fun _ => ?_
    · exact (hother _).bind fun _ _ => .pure trivial
    · exact (hother _).bind fun _ _ => .pure trivial
  · exact (hother _).bind fun _ _ => .pure trivial
  · exact h.bind fun ctx hctx => .pure hctx

/-- **No order is well-formed**, whatever the settings and whatever is drawn. `MockItemIDS` loops
while it has *enough* ids, which it has not, and so it returns none. The vectors of warehouses and
of quantities have an entry for each line, and the vector of items is empty. -/
theorem newOrder_not_wellFormed (st : TpccSettings) (rng : RNGenerator) (hundredths : Nat → F)
    (now : String) {draws rest : List Nat} {ctx : NewOrderContext}
    (hrun : nextContext st rng hundredths now draws = some (.newOrder ctx, rest)) :
    ¬ WellFormed st ctx := by
  obtain ⟨hcnt, hids, -⟩ := always_nextContext (always_nextNewOrder now) draws _ rest hrun
  intro h
  have hlen := h.iIds_length
  rw [hids, List.length_nil] at hlen
  omega

/-- The settings that are there by default, at a scale of one. -/
def defaultSettings : TpccSettings := ⟨4, 4, 4, 0, 88, ⟨1, 100000, 10, 3000, 900, 1, 1⟩⟩

/-- A hundred, a place, a customer, five lines, and nothing remarkable. -/
def plainDraws : List Nat := [100, 1, 1, 0, 1, 5, 50, 1, 50, 2, 50, 3, 50, 4, 50, 5]

def plainOrder : NewOrderContext := ⟨1, 1, 2, 5, "", [], [1, 1, 1, 1, 1], [1, 2, 3, 4, 5], true⟩

theorem newOrder_not_wellFormed_plain :
    nextContext defaultSettings ⟨0, 0, 0⟩ id "" plainDraws = some (.newOrder plainOrder, []) ∧
      ¬ WellFormed defaultSettings plainOrder := by
  have hrun : nextContext defaultSettings ⟨0, 0, 0⟩ id "" plainDraws =
      some (.newOrder plainOrder, []) := rfl
  exact ⟨hrun, newOrder_not_wellFormed defaultSettings ⟨0, 0, 0⟩ id "" hrun⟩

/-- Five lines, and no item. -/
theorem not_wellFormed_plain : defaultSettings.IsValid ∧
    ScaleParameters.build 1 = some defaultSettings.sp ∧
    nextContext defaultSettings ⟨0, 0, 0⟩ id "" plainDraws = some (.newOrder plainOrder, []) ∧
    plainOrder.olCnt = 5 ∧ plainOrder.iIds = [] ∧ ¬ WellFormed defaultSettings plainOrder := by
  refine ⟨by unfold TpccSettings.IsValid; decide, rfl, rfl, rfl, rfl, fun h => ?_⟩
  exact absurd h.iIds_length (by decide)

/-! ## Other warehouses -/

/-- **What a loop that looks for another warehouse is for.** Every warehouse other than this one can be found:
there is a number to draw at which the loop stops with it (`reaches`). That is so at any time, because the
numbers that were drawn in vain are forgotten: if the loop goes on after them and ends, it ends as if it had
begun there (`forgets`). And it never stops with this one (`other`). -/
structure FindsOther (sp : ScaleParameters) (wId : Nat) (loop : Draws Nat) : Prop where
  reaches : ∀ w, sp.whStart ≤ w → w ≤ sp.whEnd → w ≠ wId → ∃ x, loop [x] = some (w, [])
  forgets : ∀ xs ys r, loop xs = none → loop (xs ++ ys) = some r → loop ys = some r
  other : Always loop (· ≠ wId)

/-- What a turn does with a number. -/
theorem otherWarehouse_cons {pick : Draws Nat} {wId x : Nat} {xs : List Nat}
    (h : pick (x :: xs) = some (x, xs)) : otherWarehouse pick wId (x :: xs) =
      if x ≠ wId then some (x, xs) else otherWarehouse pick wId xs := by
  split
  · rename_i hne
    refine loop_of_inl ?_
    rw [bind_of_eq h, if_pos hne]
    rfl
  · rename_i heq
    refine loop_of_inr ?_
    rw [bind_of_eq h, if_neg heq]
    rfl

/-- A loop that has ended began with a number of its range. -/
theorem mem_of_otherWarehouse {lo hi wId x : Nat} {xs : List Nat} {r : Nat × List Nat}
    (h : otherWarehouse (draw lo hi) wId (x :: xs) = some r) : lo ≤ x ∧ x ≤ hi := by
  by_contra hout
  have hturn : ∀ ys, draw lo hi (x :: ys) = none := fun ys => if_neg hout
  rw [otherWarehouse, loop, loopFor] at h
  obtain ⟨a, ys, hfirst, -⟩ := bind_eq_some h
  obtain ⟨w, zs, hdraw, -⟩ := bind_eq_some hfirst
  rw [hturn] at hdraw
  cases hdraw

/-- The loop over numbers of a range does not remember what it drew in vain. -/
theorem otherWarehouse_forgets {lo hi wId : Nat} {xs ys : List Nat} {r : Nat × List Nat}
    (hvain : otherWarehouse (draw lo hi) wId xs = none)
    (hend : otherWarehouse (draw lo hi) wId (xs ++ ys) = some r) :
    otherWarehouse (draw lo hi) wId ys = some r := by
  induction xs with
  | nil => exact hend
  | cons x xs ih =>
    obtain ⟨hlo, hhi⟩ := mem_of_otherWarehouse hend
    rw [otherWarehouse_cons (draw_of_mem hlo hhi _)] at hvain
    rw [List.cons_append, otherWarehouse_cons (draw_of_mem hlo hhi _)] at hend
    split at hvain
    · cases hvain
    · rename_i heq
      rw [if_neg heq] at hend
      exact ih hvain hend

/-- The loop over numbers of a range finds every other warehouse that is in it. -/
theorem findsOther_iff {sp : ScaleParameters} {wId lo hi : Nat} :
    FindsOther sp wId (otherWarehouse (draw lo hi) wId) ↔
      ∀ w, sp.whStart ≤ w → w ≤ sp.whEnd → w ≠ wId → lo ≤ w ∧ w ≤ hi := by
  have hrange := always_otherWarehouse (Always.draw lo hi) wId
  constructor
  · intro h w hstart hend hne
    obtain ⟨x, hrun⟩ := h.reaches w hstart hend hne
    exact (hrange _ _ _ hrun).1
  · intro hall
    refine ⟨fun w hstart hend hne => ⟨w, ?_⟩, fun _ _ _ => otherWarehouse_forgets,
      hrange.mono fun _ hw => hw.2⟩
    obtain ⟨hlo, hhi⟩ := hall w hstart hend hne
    rw [otherWarehouse_cons (draw_of_mem hlo hhi []), if_pos hne]

/-- **Both loops of `NextContext` can always end**: the one in which a payment looks for another warehouse,
and the one in which an order line does. -/
def CanFinish (st : TpccSettings) (wId : Nat) : Prop :=
  FindsOther st.sp wId (otherPaymentWarehouse st.sp wId) ∧
    FindsOther st.sp wId (otherSupplyWarehouse st wId)

theorem supply_findsOther (st : TpccSettings) (wId : Nat) :
    FindsOther st.sp wId (otherSupplyWarehouse st wId) :=
  findsOther_iff.mpr fun _ hstart hend _ => ⟨hstart, hend⟩

/-- A payment finds every other warehouse if there is none but the first. -/
theorem payment_findsOther_iff {sp : ScaleParameters} {wId : Nat} :
    FindsOther sp wId (otherPaymentWarehouse sp wId) ↔
      ∀ w, sp.whStart ≤ w → w ≤ sp.whEnd → w ≠ wId → w = sp.whStart := by
  rw [otherPaymentWarehouse, findsOther_iff]
  refine forall_congr' fun w => forall_congr' fun hstart => forall_congr' fun _ => forall_congr' fun _ => ?_
  exact ⟨fun h => le_antisymm h.2 h.1, fun h => ⟨h.ge, h.le⟩⟩

/-- **When both loops can always end.** The loop of an order line always can. The loop of a payment draws
the first warehouse only, and so finds every other one only if there are two and it starts at the second. -/
theorem canFinish_iff {scaleFactor : Nat} (htwo : 2 ≤ scaleFactor) {st : TpccSettings}
    (hsp : ScaleParameters.build scaleFactor = some st.sp) {wId : Nat} (hstart : st.sp.whStart ≤ wId)
    (hend : wId ≤ st.sp.whEnd) : CanFinish st wId ↔ scaleFactor = 2 ∧ wId = st.sp.whEnd := by
  obtain ⟨-, hbuild⟩ := Option.ite_none_right_eq_some.mp hsp
  have hfirst : st.sp.whStart = 1 := by rw [← Option.some_inj.mp hbuild]
  have hlast : st.sp.whEnd = scaleFactor := by
    rw [← Option.some_inj.mp hbuild]
    show 1 + scaleFactor - 1 = scaleFactor
    omega
  rw [CanFinish, and_iff_left (supply_findsOther st wId), payment_findsOther_iff]
  rw [hfirst, hlast] at *
  constructor
  · intro hall
    -- One of the first two warehouses and the last one are others.
    have hlastOnly := hall scaleFactor (by omega) (le_refl _)
    have htwoOnly := hall 2 (by omega) htwo
    omega
  · rintro ⟨rfl, rfl⟩ w hw hw' hne
    omega

def settingsAt (scaleFactor : Nat) : TpccSettings :=
  ⟨4, 4, 4, 43, 45, ⟨scaleFactor, 100000, 10, 3000, 900, 1, 1 + scaleFactor - 1⟩⟩

/-- With two warehouses and a payment at the second, both loops can. -/
theorem canFinish_iff_two : 2 = (settingsAt 2).sp.whEnd ∧ CanFinish (settingsAt 2) 2 :=
  ⟨rfl, (canFinish_iff (le_refl 2) rfl (by decide) (by decide)).mpr ⟨rfl, rfl⟩⟩

theorem otherPaymentWarehouse_stuck (sp : ScaleParameters) :
    Always (otherPaymentWarehouse sp sp.whStart) fun _ => False :=
  (always_otherWarehouse (Always.draw _ _) _).mono fun _ hw => hw.2 (le_antisymm hw.1.2 hw.1.1)

/-- With three warehouses a payment at the second does not reach the third, and one at the first never gets
out of the loop. -/
theorem not_canFinish_three : ScaleParameters.build 3 = some (settingsAt 3).sp ∧
    (settingsAt 3).IsValid ∧ ¬ CanFinish (settingsAt 3) 2 ∧ ¬ CanFinish (settingsAt 3) 1 ∧
    Always (otherPaymentWarehouse (settingsAt 3).sp 1) fun _ => False := by
  refine ⟨rfl, by unfold TpccSettings.IsValid; decide, fun h => ?_, fun h => ?_,
    otherPaymentWarehouse_stuck (settingsAt 3).sp⟩
  · exact absurd (payment_findsOther_iff.mp h.1 3 (by decide) (by decide) (by decide)) (by decide)
  · exact absurd (payment_findsOther_iff.mp h.1 3 (by decide) (by decide) (by decide)) (by decide)

end TpccFactory

end CxxLab.DuckdbLab
