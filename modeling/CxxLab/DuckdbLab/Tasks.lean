import CxxLab.Lib.Run
import CxxLab.DuckdbLab.Consistency
import CxxLab.DuckdbLab.Collector

/-!
# `duckdb_lab/Task.cpp`, `runner.h` — tasks and drivers

Any number of tasks run at once, each in its own thread: a task asks the runner for a driver until
it gets one, has its transaction made by it, records what became of that, and gives the driver back.
Each of these is one step, as the runner and the metrics have their locks and no one else has the
driver; what the transaction finds in the database, what becomes of its queries and what the clock
says are given from outside.

Whether the transaction was committed is read off `has_rollbacked_`, which is set on every way out
but the one behind `Commit`. Which metric is told of it is settled by a second row of comparisons,
at the end of `Task::Run`, and there a payment is taken for a delivery.
-/

set_option autoImplicit false

namespace CxxLab.DuckdbLab

open CxxLab.Lib Exec

variable {F : Type} (p : Platform F)

/-- `ContextType`, less the invalid one. -/
inductive ContextType where
  | stockLevel
  | delivery
  | orderStatus
  | payment
  | newOrder
  deriving DecidableEq

/-- `TpccContext::type_`. -/
def TpccContext.type : TpccContext F → ContextType
  | .stockLevel _ => .stockLevel
  | .delivery _ => .delivery
  | .orderStatus _ => .orderStatus
  | .payment _ => .payment
  | .newOrder _ => .newOrder

namespace Collector

/-- The choice of the metric at the end of `Task::Run`. -/
def recordEntry (c : Collector) (entry : MetricEntry) : ContextType → Collector
  | .delivery => c.recordDeliveryEntry entry
  | .newOrder => c.recordNewOrderEntry entry
  | .orderStatus => c.recordOrderEntry entry
  | .payment => c.recordDeliveryEntry entry
  | .stockLevel => c.recordStockLevelEntry entry

/-- The metric that is printed under the name of a type. -/
def metric (c : Collector) : ContextType → Metric
  | .delivery => c.dM
  | .newOrder => c.noM
  | .orderStatus => c.osM
  | .payment => c.pM
  | .stockLevel => c.slM

end Collector

abbrev DriverPtr := Nat

/-- How far `Task::Run` has come. From the transaction on, the connection it began on is kept, for
what is said of it afterwards. -/
inductive Phase where
  | waiting
  | driving (driver : DriverPtr)
  | driven (driver : DriverPtr) (began : Session) (entry : MetricEntry)
  | recorded (driver : DriverPtr) (began : Session) (entry : MetricEntry)
  | done (began : Session) (entry : MetricEntry)

structure Task (F : Type) where
  context : TpccContext F
  phase : Phase

/-- What the tasks share. -/
structure Shared where
  /-- `Runner::in_idle_`. -/
  inIdle : List DriverPtr
  /-- The transaction that is open on the connection of a driver. -/
  begun : DriverPtr → Option Database
  collector : Collector

namespace Shared

/-- `Runner::Use`. -/
def use (sh : Shared) : Option DriverPtr × Shared :=
  match sh.inIdle.getLast? with
  | none => (none, sh)
  | some driver => (some driver, { sh with inIdle := sh.inIdle.dropLast })

/-- `Runner::Release`. -/
def release (sh : Shared) (driver : DriverPtr) : Shared :=
  { sh with inIdle := sh.inIdle ++ [driver] }

end Shared

inductive Act where
  | use
  | drive (db : Database) (outcomes : List Outcome) (execTimeUs ts : Nat)
  | record
  | release

/-- `Task::Run`, a step at a time. -/
def Task.step (sh : Shared) (t : Task F) : Act → Option (Shared × Task F)
  | .use =>
    match t.phase with
    | .waiting =>
      match sh.use with
      | (none, sh) => some (sh, t)
      | (some driver, sh) => some (sh, { t with phase := .driving driver })
    | _ => none
  | .drive db outcomes execTimeUs ts =>
    match t.phase with
    | .driving driver =>
      let began : Session := ⟨db, sh.begun driver, outcomes, false⟩
      let s := runTransaction p t.context began
      some ({ sh with begun := fun d => if d = driver then s.begun else sh.begun d },
        { t with phase := .driven driver began ⟨execTimeUs, !s.hasRollbacked, ts⟩ })
    | _ => none
  | .record =>
    match t.phase with
    | .driven driver began entry =>
      some ({ sh with collector := sh.collector.recordEntry entry t.context.type },
        { t with phase := .recorded driver began entry })
    | _ => none
  | .release =>
    match t.phase with
    | .recorded driver began entry =>
      some (sh.release driver, { t with phase := .done began entry })
    | _ => none

structure Workers (F : Type) where
  shared : Shared
  tasks : List (Task F)

namespace Workers

/-- A step of one of the tasks. -/
def step (w : Workers F) (op : Nat × Act) : Option (Workers F) := do
  let t ← w.tasks[op.1]?
  let (sh, t) ← t.step p w.shared op.2
  return ⟨sh, w.tasks.set op.1 t⟩

def start (drivers : List DriverPtr) (contexts : List (TpccContext F)) : Workers F :=
  ⟨⟨drivers, fun _ => none, .new⟩, contexts.map fun ctx => ⟨ctx, .waiting⟩⟩

end Workers

/-! ## What is asked of them -/

/-- The calls made so far were all successes. -/
def Untroubled (outcomes : List Outcome) (s : Session) : Prop :=
  ∃ made, outcomes = made ++ s.outcomes ∧ ∀ o ∈ made, o = .success

/-- **The transaction reaches `Commit` without failure**, and that has none. -/
def ReachesCommit (ctx : TpccContext F) (s : Session) : Prop :=
  ∃ s', exec (doTransaction p ctx) s = (.ok (), s') ∧ Untroubled s.outcomes s'

namespace Task

/-- The driver in the hands of a task. -/
def driver? (t : Task F) : Option DriverPtr :=
  match t.phase with
  | .driving driver | .driven driver _ _ | .recorded driver _ _ => some driver
  | .waiting | .done _ _ => none

/-- The entry of a task that has come past its record. -/
def entry? (t : Task F) : Option MetricEntry :=
  match t.phase with
  | .recorded _ _ entry | .done _ entry => some entry
  | .waiting | .driving _ | .driven _ _ _ => none

/-- What the entry says of the transaction is so. -/
def Truthful (t : Task F) : Prop :=
  match t.phase with
  | .driven _ began entry | .recorded _ began entry | .done began entry =>
    entry.isCommit = true ↔ ReachesCommit p t.context began
  | .waiting | .driving _ => True

def isDone (t : Task F) : Bool :=
  match t.phase with
  | .done _ _ => true
  | _ => false

end Task

/-- **The tasks are accounted for.**

It is said of every moment: the metrics have an entry of each task that has ended and of no other,
an entry says of a task whether it was committed, and the drivers are in the queue or with one task
each. And of the end, when all are done: there are as many entries and as many drivers in the queue
as there should be. -/
structure Accounted (drivers : List DriverPtr) (contexts : List (TpccContext F)) (w : Workers F) :
    Prop where
  same : w.tasks.map Task.context = contexts
  /-- The metric of a type has one entry of each of its tasks, and no others. -/
  entries : ∀ type, (w.shared.collector.metric type).entries.Perm
    ((w.tasks.filter fun t => t.context.type = type).filterMap Task.entry?)
  truthful : ∀ t ∈ w.tasks, t.Truthful p
  registered : (w.shared.inIdle ++ w.tasks.filterMap Task.driver?).Perm drivers
  executed : w.tasks.all Task.isDone → ∀ type, (w.shared.collector.metric type).entries.length =
    contexts.countP fun ctx => ctx.type = type
  /-- And so does the summary, as the clock is past its epoch. -/
  totals : w.tasks.all Task.isDone → ∀ type,
    (∀ entry ∈ (w.shared.collector.metric type).entries, 0 < entry.ts) →
    (w.shared.collector.metric type).summary.totals = contexts.countP fun ctx => ctx.type = type
  idle : w.tasks.all Task.isDone → w.shared.inIdle.Perm drivers

/-! ## The flag -/

/-- Before `START TRANSACTION`. -/
def Fresh (outcomes : List Outcome) (s : Session) : Prop :=
  s.begun = none ∧ s.hasRollbacked = false ∧ s.outcomes = outcomes

/-- Between two queries: if there is a transaction then all calls were successes. -/
def Going (outcomes : List Outcome) (s : Session) : Prop :=
  s.hasRollbacked = false ∧ (s.begun = none ∨ Untroubled outcomes s)

/-- Behind `Commit`. -/
def Through (outcomes : List Outcome) (s : Session) : Prop :=
  s.begun = none ∧ s.hasRollbacked = false ∧ Untroubled outcomes s

/-- What every way out but the last one leaves. -/
def Marked : Stop → Session → Prop
  | .returned, s => s.begun = none ∧ s.hasRollbacked = true
  | .exception, _ => True

section Flag

variable {p} {outcomes : List Outcome}

theorem Untroubled.next {s : Session} (h : Untroubled outcomes s)
    (hsuccess : s.outcomes.headD .success = .success) :
    Untroubled outcomes { s with outcomes := s.outcomes.tail } := by
  obtain ⟨made, heq, hall⟩ := h
  cases hs : s.outcomes with
  | nil => exact ⟨made, by rw [heq, hs]; rfl, hall⟩
  | cons o os =>
    refine ⟨made ++ [o], by rw [heq, hs, List.append_assoc]; rfl, ?_⟩
    rw [hs, List.headD_cons] at hsuccess
    simpa [or_imp, forall_and, hsuccess] using hall

theorem nextOutcome_spec {I : Session → Prop} : Triple I nextOutcome
    (fun o s' => ∃ s, I s ∧ s' = { s with outcomes := s.outcomes.tail } ∧
      s.outcomes.headD .success = o) Marked := by
  refine Triple.get_bind fun s hs => ?_
  refine (Triple.modify (Q := fun _ s' => s' = { s with outcomes := s.outcomes.tail }) ?_).bind
    fun _ => .pure fun s' hs' => ⟨s, hs, hs', rfl⟩
  rintro s rfl
  rfl

theorem nextOutcome_going : Triple (Going outcomes) nextOutcome
    (fun o s => o = .success → Going outcomes s) Marked := by
  refine nextOutcome_spec.post ?_
  rintro o s' ⟨s, hs, rfl, rfl⟩ hsuccess
  exact ⟨hs.1, hs.2.imp_right fun h => h.next hsuccess⟩

/-- **The rule for queries** between the first and the last call. -/
theorem query_going {α : Type} (statement : Statement α) :
    Triple (Going outcomes) (query statement) (fun _ => Going outcomes) Marked := by
  have hconn : Triple (Going outcomes) (connQuery statement)
      (fun r s => r.isSome → Going outcomes s) Marked := by
    refine nextOutcome_going.bind fun o => ?_
    cases o with
    | throws => exact .throw fun _ _ => trivial
    | error => exact .pure fun _ _ => nofun
    | success =>
      refine Triple.get_bind fun s hs => ?_
      cases statement s.db with
      | none => exact .pure fun _ _ => nofun
      | some r =>
        refine (Triple.modify (Q := fun _ => Going outcomes) ?_).bind fun _ => .pure fun _ h _ => h
        rintro s rfl
        exact hs rfl
  refine hconn.bind fun r => ?_
  cases r with
  | some a => exact .pure fun _ h => h rfl
  | none =>
    exact (Triple.modify (Q := fun _ => Marked .returned) fun _ _ => ⟨rfl, rfl⟩).bind fun _ =>
      .throw fun _ => id

theorem Going.kept (outcomes : List Outcome) : KeptByQueries (Going outcomes) Marked where
  query := fun _ => query_going _
  throws := fun _ _ => trivial

theorem connStart_fresh :
    Triple (Fresh outcomes) connStart (fun _ => Going outcomes) Marked := by
  refine nextOutcome_spec.bind fun o => ?_
  cases o with
  | throws => exact .throw fun _ _ => trivial
  | error =>
    refine .pure ?_
    rintro s' ⟨s, hs, rfl, -⟩
    exact ⟨hs.2.1, .inl hs.1⟩
  | success =>
    refine Triple.get_bind ?_
    rintro s' ⟨s, hs, rfl, hsuccess⟩
    have hmade : Untroubled outcomes s := ⟨[], hs.2.2.symm, nofun⟩
    refine Triple.ite (fun _ => .pure ?_) fun _ => ?_
    · rintro s' rfl
      exact ⟨hs.2.1, .inl hs.1⟩
    · refine (Triple.modify (Q := fun _ => Going outcomes) ?_).bind fun _ => .pure fun _ => id
      rintro s' rfl
      exact ⟨hs.2.1, .inr (hmade.next hsuccess)⟩

theorem startTransaction_fresh :
    Triple (Fresh outcomes) startTransaction (fun _ => Going outcomes) Marked := by
  refine connStart_fresh.bind fun started => ?_
  cases started with
  | true => exact .pure fun _ => id
  | false =>
    exact (Triple.modify (Q := fun _ => Marked .returned) fun _ _ => ⟨rfl, rfl⟩).bind fun _ =>
      .throw fun _ => id

theorem connCommit_going :
    Triple (Going outcomes) connCommit (fun _ => Through outcomes) Marked := by
  refine nextOutcome_going.bind fun o => ?_
  cases o with
  | throws => exact .throw fun _ _ => trivial
  | error => exact .throw fun _ _ => trivial
  | success =>
    refine Triple.get_bind fun s hs => ?_
    obtain ⟨hflag, hbegun | hmade⟩ := hs rfl
    · rw [hbegun]
      exact .throw fun _ _ => trivial
    · refine Triple.ite (fun _ => .throw fun _ _ => trivial) fun _ => Triple.modify ?_
      rintro s rfl
      exact ⟨rfl, hflag, hmade⟩

theorem doDelivery_through (ctx : DeliveryContext) :
    Triple (Fresh outcomes) (doDelivery p ctx) (fun _ => Through outcomes) Marked := by
  refine connStart_fresh.bind fun _ => ?_
  refine (Triple.forM fun dId _ => (Going.kept outcomes).deliverDistrict ctx dId).bind fun _ => ?_
  exact connCommit_going

theorem doNewOrder_through (ctx : NewOrderContext) :
    Triple (Fresh outcomes) (doNewOrder p ctx) (fun _ => Through outcomes) Marked := by
  have hI := Going.kept outcomes
  refine startTransaction_fresh.bind fun _ => ?_
  refine (hI.getItems ctx.iIds).bind fun items => (query_going _).bind fun _ => ?_
  refine (query_going _).bind fun rows => (hI.getRow rows 0).bind fun row => ?_
  refine (hI.getId row.2).bind fun dNextOId => (query_going _).bind fun _ => ?_
  refine (query_going _).bind fun _ => (query_going _).bind fun _ => (query_going _).bind fun _ => ?_
  refine (Triple.forM fun line _ => hI.createLine ctx dNextOId _ _ _ _).bind fun _ => ?_
  exact connCommit_going

theorem doPayment_through (ctx : PaymentContext F) :
    Triple (Fresh outcomes) (doPayment p ctx) (fun _ => Through outcomes) Marked := by
  have hI := Going.kept outcomes
  refine startTransaction_fresh.bind fun _ => ?_
  refine (hI.paymentCustomer ctx).bind fun row => ?_
  refine (hI.getId row.2.cPaymentCnt).bind fun cPaymentCnt => ?_
  refine (query_going _).bind fun warehouses => (hI.getRow warehouses 0).bind fun warehouse => ?_
  refine (query_going _).bind fun districts => (hI.getRow districts 0).bind fun district => ?_
  refine (query_going _).bind fun _ => (query_going _).bind fun _ => ?_
  refine Triple.ite (fun _ => ?_) fun _ => ?_
  · exact (query_going _).bind fun _ => (query_going _).bind fun _ => connCommit_going
  · exact (query_going _).bind fun _ => (query_going _).bind fun _ => connCommit_going

theorem doOrderStatus_through (ctx : OrderStatusContext) :
    Triple (Fresh outcomes) (doOrderStatus ctx) (fun _ => Through outcomes) Marked := by
  have hI := Going.kept outcomes
  refine startTransaction_fresh.bind fun _ => ?_
  refine (hI.orderStatusCustomer ctx).bind fun cId => (query_going _).bind fun orders => ?_
  cases orders with
  | nil => exact connCommit_going
  | cons order orders =>
    refine (hI.getId order.oId).bind fun oId => (query_going _).bind fun _ => ?_
    exact connCommit_going

theorem doStockLevel_through (ctx : StockLevelContext) :
    Triple (Fresh outcomes) (doStockLevel ctx) (fun _ => Through outcomes) Marked := by
  have hI := Going.kept outcomes
  refine startTransaction_fresh.bind fun _ => ?_
  refine (query_going _).bind fun rows => (hI.getRow rows 0).bind fun oIdVal => ?_
  refine (hI.getId oIdVal).bind fun oId => (query_going _).bind fun _ => ?_
  exact connCommit_going

theorem doTransaction_through (ctx : TpccContext F) :
    Triple (Fresh outcomes) (doTransaction p ctx) (fun _ => Through outcomes) Marked := by
  cases ctx with
  | stockLevel ctx => exact doStockLevel_through ctx
  | delivery ctx => exact doDelivery_through ctx
  | orderStatus ctx => exact doOrderStatus_through ctx
  | payment ctx => exact doPayment_through ctx
  | newOrder ctx => exact doNewOrder_through ctx

/-- **A task leaves no transaction open**, and its flag says whether `Commit` was reached. -/
theorem runTransaction_through (ctx : TpccContext F) {s : Session} (hbegun : s.begun = none)
    (hflag : s.hasRollbacked = false) : (runTransaction p ctx s).begun = none ∧
      ((runTransaction p ctx s).hasRollbacked = false ↔ ReachesCommit p ctx s) := by
  have hrun := doTransaction_through (p := p) ctx s ⟨hbegun, hflag, rfl⟩
  unfold runTransaction ReachesCommit
  rcases hexec : exec (doTransaction p ctx) s with ⟨r, s'⟩
  rw [hexec] at hrun
  cases r with
  | ok _ => exact ⟨hrun.1, iff_of_true hrun.2.1 ⟨s', rfl, hrun.2.2⟩⟩
  | error e =>
    cases e with
    | returned =>
      refine ⟨hrun.1, iff_of_false (fun h => ?_) nofun⟩
      exact Bool.noConfusion (hrun.2.symm.trans h)
    | exception => exact ⟨rfl, iff_of_false nofun nofun⟩

end Flag

/-! ## A step of a task -/

section Steps

variable {p} {sh sh' : Shared} {t t' : Task F} {a : Act}

/-- What a step of a task can do. -/
inductive Task.Moves (p : Platform F) (sh : Shared) (t : Task F) : Act → Shared → Task F → Prop where
  /-- There is no idle driver. -/
  | spin : t.phase = .waiting → Moves p sh t .use sh t
  | use {idle : List DriverPtr} {driver : DriverPtr} : t.phase = .waiting →
    sh.inIdle = idle ++ [driver] →
    Moves p sh t .use { sh with inIdle := idle } { t with phase := .driving driver }
  | drive {driver : DriverPtr} {db : Database} {outcomes : List Outcome} {execTimeUs ts : Nat}
    {began s : Session} : t.phase = .driving driver → began = ⟨db, sh.begun driver, outcomes, false⟩ →
    s = runTransaction p t.context began →
    Moves p sh t (.drive db outcomes execTimeUs ts)
      { sh with begun := fun d => if d = driver then s.begun else sh.begun d }
      { t with phase := .driven driver began ⟨execTimeUs, !s.hasRollbacked, ts⟩ }
  | record {driver : DriverPtr} {began : Session} {entry : MetricEntry} :
    t.phase = .driven driver began entry →
    Moves p sh t .record { sh with collector := sh.collector.recordEntry entry t.context.type }
      { t with phase := .recorded driver began entry }
  | release {driver : DriverPtr} {began : Session} {entry : MetricEntry} :
    t.phase = .recorded driver began entry →
    Moves p sh t .release (sh.release driver) { t with phase := .done began entry }

theorem Task.moves_of_step (h : t.step p sh a = some (sh', t')) : Moves p sh t a sh' t' := by
  cases a with
  | use =>
    simp only [Task.step] at h
    split at h
    · rename_i hphase
      unfold Shared.use at h
      cases hlast : sh.inIdle.getLast? with
      | none =>
        rw [hlast] at h
        cases h
        exact .spin hphase
      | some driver =>
        rw [hlast] at h
        cases h
        exact .use hphase (List.dropLast_append_getLast? driver hlast).symm
    · cases h
  | drive db outcomes execTimeUs ts =>
    simp only [Task.step] at h
    split at h
    · rename_i hphase
      cases h
      exact .drive hphase rfl rfl
    · cases h
  | record =>
    simp only [Task.step] at h
    split at h
    · rename_i hphase
      cases h
      exact .record hphase
    · cases h
  | release =>
    simp only [Task.step] at h
    split at h
    · rename_i hphase
      cases h
      exact .release hphase
    · cases h

theorem Task.Moves.context (h : Moves p sh t a sh' t') : t'.context = t.context := by
  cases h <;> rfl

theorem Task.Moves.entry?_isSome (h : Moves p sh t a sh' t') :
    t'.entry?.isSome ↔ t.entry?.isSome ∨ a = .record := by
  cases h with
  | spin h => simp
  | use h => simp [Task.entry?, h]
  | drive h => simp [Task.entry?, h]
  | record h => simp [Task.entry?]
  | release h => simp [Task.entry?, h]

end Steps

/-! ## The invariant -/

/-- The type whose metric `Task::Run` tells of a transaction. -/
def ContextType.recordedAs : ContextType → ContextType
  | .payment => .delivery
  | type => type

/-- The entries of the tasks of a kind. -/
def entriesOf (tasks : List (Task F)) (type : ContextType) : List MetricEntry :=
  (tasks.filter fun t => t.context.type.recordedAs = type).filterMap Task.entry?

theorem Collector.metric_recordEntry (c : Collector) (entry : MetricEntry) (type type' : ContextType) :
    (c.recordEntry entry type).metric type' =
      if type.recordedAs = type' then (c.metric type').record entry else c.metric type' := by
  cases type <;> cases type' <;> rfl

/-- **The invariant of all runs**: every entry is where `Task::Run` puts it. The tasks have no order
in it. -/
structure TasksInv (drivers : List DriverPtr) (sh : Shared) (tasks : List (Task F)) : Prop where
  begun : ∀ driver, sh.begun driver = none
  entries : ∀ type, (sh.collector.metric type).entries.Perm (entriesOf tasks type)
  unsummed : ∀ type, Metric.Summed [] (sh.collector.metric type).entries (sh.collector.metric type)
  truthful : ∀ t ∈ tasks, t.Truthful p
  registered : (sh.inIdle ++ tasks.filterMap Task.driver?).Perm drivers

namespace TasksInv

variable {p} {drivers : List DriverPtr} {sh sh' : Shared} {t t' : Task F} {a : Act}
  {tasks tasks' rest : List (Task F)}

theorem of_start (drivers : List DriverPtr) (contexts : List (TpccContext F)) :
    TasksInv p drivers (Workers.start drivers contexts).shared
      (Workers.start drivers contexts).tasks where
  begun := fun _ => rfl
  entries := by
    intro type
    have hnone : entriesOf (Workers.start drivers contexts).tasks type = [] := by
      refine List.filterMap_eq_nil_iff.mpr fun t ht => ?_
      obtain ⟨ctx, -, rfl⟩ := List.mem_map.mp (List.mem_of_mem_filter ht)
      rfl
    rw [hnone]
    cases type <;> exact .nil
  unsummed := by
    intro type
    cases type <;> exact .of_new
  truthful := by
    intro t ht
    obtain ⟨ctx, -, rfl⟩ := List.mem_map.mp ht
    trivial
  registered := by
    have hnone : (Workers.start drivers contexts).tasks.filterMap Task.driver? = [] := by
      refine List.filterMap_eq_nil_iff.mpr fun t ht => ?_
      obtain ⟨ctx, -, rfl⟩ := List.mem_map.mp ht
      rfl
    rw [hnone, List.append_nil]
    exact .refl _

theorem perm (h : TasksInv p drivers sh tasks) (hperm : tasks.Perm tasks') :
    TasksInv p drivers sh tasks' where
  begun := h.begun
  entries := fun type => (h.entries type).trans ((hperm.filter _).filterMap _)
  unsummed := h.unsummed
  truthful := fun t ht => h.truthful t (hperm.mem_iff.mpr ht)
  registered := ((hperm.filterMap _).symm.append_left _).trans h.registered

/-- The entries with one task in front. -/
theorem entriesOf_cons (t : Task F) (rest : List (Task F)) (type : ContextType) :
    entriesOf (t :: rest) type =
      (if t.context.type.recordedAs = type then t.entry?.toList else []) ++ entriesOf rest type := by
  unfold entriesOf
  by_cases htype : t.context.type.recordedAs = type
  · rw [List.filter_cons_of_pos (by simpa using htype), if_pos htype, List.filterMap_cons]
    cases t.entry? <;> rfl
  · rw [List.filter_cons_of_neg (by simpa using htype), if_neg htype]
    rfl

/-- **One step of a task** keeps the invariant. -/
theorem step (h : TasksInv p drivers sh (t :: rest)) (hstep : t.Moves p sh a sh' t') :
    TasksInv p drivers sh' (t' :: rest) := by
  have hrest : ∀ t ∈ rest, t.Truthful p := fun t ht => h.truthful t (List.mem_cons_of_mem _ ht)
  have hself := h.truthful t List.mem_cons_self
  have hentries := h.entries
  have hregistered := h.registered
  simp only [entriesOf_cons, List.filterMap_cons] at hentries hregistered
  cases hstep with
  | spin => exact h
  | use hphase hidle =>
    refine ⟨h.begun, ?_, h.unsummed, List.forall_mem_cons.mpr ⟨trivial, hrest⟩, ?_⟩
    · simpa [entriesOf_cons, Task.entry?, hphase] using hentries
    · simpa [Task.driver?, hphase, hidle] using hregistered
  | @drive driver db outcomes execTimeUs ts began s hphase hbegan hs =>
    obtain ⟨hnone, hflag⟩ := runTransaction_through (p := p) t.context
      (s := began) (by rw [hbegan]; exact h.begun driver) (by rw [hbegan])
    rw [← hs] at hnone hflag
    refine ⟨fun d => ?_, ?_, h.unsummed, List.forall_mem_cons.mpr ⟨?_, hrest⟩, ?_⟩
    · show (if d = driver then s.begun else sh.begun d) = none
      rw [hnone, h.begun, ite_self]
    · simpa [entriesOf_cons, Task.entry?, hphase] using hentries
    · show (!s.hasRollbacked) = true ↔ _
      rw [Bool.not_eq_true', hflag]
    · simpa [Task.driver?, hphase] using hregistered
  | @record driver began entry hphase =>
    refine ⟨h.begun, fun type => ?_, fun type => ?_, List.forall_mem_cons.mpr ⟨?_, hrest⟩, ?_⟩
    · rw [entriesOf_cons, Collector.metric_recordEntry]
      have hbefore : (sh.collector.metric type).entries.Perm (entriesOf rest type) := by
        simpa [Task.entry?, hphase] using hentries type
      by_cases htype : t.context.type.recordedAs = type
      · rw [if_pos htype, if_pos htype]
        exact (hbefore.append_right [entry]).trans List.perm_append_comm
      · rw [if_neg htype, if_neg htype]
        exact hbefore
    · rw [Collector.metric_recordEntry]
      split
      · exact (h.unsummed type).record entry
      · exact h.unsummed type
    · rw [Task.Truthful, hphase] at hself
      exact hself
    · simpa [Task.driver?, hphase] using hregistered
  | release hphase =>
    refine ⟨h.begun, ?_, h.unsummed, List.forall_mem_cons.mpr ⟨?_, hrest⟩, ?_⟩
    · simpa [entriesOf_cons, Task.entry?, hphase, Shared.release] using hentries
    · rw [Task.Truthful, hphase] at hself
      exact hself
    · simpa [List.filterMap_cons, Task.driver?, hphase, Shared.release] using hregistered

end TasksInv

/-! ## Runs -/

section Runs

variable {p} {drivers : List DriverPtr} {contexts : List (TpccContext F)} {w w' : Workers F}
  {ops : List (Nat × Act)}

/-- What a run so far has come to. -/
structure RunInv (p : Platform F) (drivers : List DriverPtr) (contexts : List (TpccContext F))
    (ops : List (Nat × Act)) (w : Workers F) : Prop where
  tasks : TasksInv p drivers w.shared w.tasks
  same : w.tasks.map Task.context = contexts
  recorded : ∀ i t, w.tasks[i]? = some t → (t.entry?.isSome ↔ (i, Act.record) ∈ ops)

theorem RunInv.step {op : Nat × Act} (h : RunInv p drivers contexts ops w)
    (hstep : w.step p op = some w') : RunInv p drivers contexts (ops ++ [op]) w' := by
  obtain ⟨i, a⟩ := op
  obtain ⟨t, hget, hrest⟩ := Option.bind_eq_some_iff.mp hstep
  obtain ⟨⟨sh', t'⟩, hone, hres⟩ := Option.bind_eq_some_iff.mp hrest
  cases hres
  have hmoves : t.Moves p w.shared a sh' t' := Task.moves_of_step hone
  obtain ⟨hi, rfl⟩ : ∃ hi : i < w.tasks.length, w.tasks[i] = t := List.getElem?_eq_some_iff.mp hget
  refine ⟨?_, ?_, ?_⟩
  · have hfront := h.tasks.perm (List.getElem_cons_eraseIdx_perm hi).symm
    exact (hfront.step hmoves).perm (List.set_perm_cons_eraseIdx hi t').symm
  · show (w.tasks.set i t').map Task.context = contexts
    have hlen : i < (w.tasks.map Task.context).length := by rwa [List.length_map]
    have hself : w.tasks[i].context = (w.tasks.map Task.context)[i] := (List.getElem_map _).symm
    rw [← h.same, List.map_set, hmoves.context, hself, List.set_getElem_self]
  · intro j t₁ hj
    rw [List.mem_append, List.mem_singleton, Prod.mk.injEq]
    rw [List.getElem?_set] at hj
    split at hj
    · rename_i hij
      subst hij
      cases hj
      rw [hmoves.entry?_isSome, h.recorded i _ (List.getElem?_eq_getElem hi), eq_comm (a := a)]
      simp
    · rename_i hij
      rw [h.recorded j t₁ hj, or_iff_left fun h => hij h.1.symm]

theorem runInv_of_run (hrun : runSteps (Workers.step p) (Workers.start drivers contexts) ops =
    some w) : RunInv p drivers contexts ops w := by
  refine runSteps_history (I := RunInv p drivers contexts) ⟨.of_start drivers contexts, ?_, ?_⟩ hrun
    fun _ _ _ _ _ h hstep => h.step hstep
  · rw [Workers.start, List.map_map]
    exact List.map_id _
  · intro i t ht
    obtain ⟨ctx, -, rfl⟩ := List.mem_map.mp (List.mem_of_getElem? ht)
    exact iff_of_false nofun nofun

/-- A payment that is not recorded is in no wrong place. -/
theorem entriesOf_eq {tasks : List (Task F)}
    (h : ∀ t ∈ tasks, t.context.type = .payment → t.entry? = none) (type : ContextType) :
    entriesOf tasks type =
      (tasks.filter fun t => t.context.type = type).filterMap Task.entry? := by
  rw [entriesOf, List.filterMap_filter, List.filterMap_filter]
  refine List.filterMap_congr fun t ht => ?_
  cases htype : t.context.type with
  | payment => rw [h t ht htype, ite_self, ite_self]
  | _ => rfl

theorem entriesOf_payment (tasks : List (Task F)) : entriesOf tasks .payment = [] := by
  have hnone : (tasks.filter fun t => t.context.type.recordedAs = .payment) = [] := by
    refine List.filter_eq_nil_iff.mpr fun t _ => ?_
    cases t.context.type <;> decide
  rw [entriesOf, hnone]
  rfl

theorem length_entries_of_done {tasks : List (Task F)} (hdone : tasks.all Task.isDone)
    (type : ContextType) :
    ((tasks.filter fun t => t.context.type = type).filterMap Task.entry?).length =
      (tasks.map Task.context).countP fun ctx => ctx.type = type := by
  rw [List.filterMap_length_eq_length.mpr, List.countP_map, List.countP_eq_length_filter]
  · rfl
  · intro t ht
    have hphase := List.all_eq_true.mp hdone t (List.mem_of_mem_filter ht)
    unfold Task.isDone at hphase
    unfold Task.entry?
    split at hphase
    · rename_i hphase'
      rw [hphase']
      rfl
    · cases hphase

theorem driver?_of_done {t : Task F} (hdone : t.isDone) : t.driver? = none := by
  unfold Task.isDone at hdone
  unfold Task.driver?
  split at hdone
  · rename_i hphase
    rw [hphase]
  · cases hdone

/-- **The tasks are accounted for** in every run up to the point where a payment is recorded, and no
further.

Every task that has ended has one entry, in the metric of its type, that says whether it was
committed; and a driver is either in the queue or in the hands of one task. But the comparisons at
the end of `Task::Run` take a payment for a delivery, so its entry is one too many there, and the
metric of payments has none. -/
theorem accounted_iff (hrun : runSteps (Workers.step p) (Workers.start drivers contexts) ops = some w) :
    Accounted p drivers contexts w ↔
      ∀ i ctx, (i, Act.record) ∈ ops → contexts[i]? ≠ some (.payment ctx) := by
  have h := runInv_of_run hrun
  constructor
  · intro hacc i ctx hrecord hctx
    rw [← h.same, List.getElem?_map] at hctx
    obtain ⟨t, ht, hpayment⟩ := Option.map_eq_some_iff.mp hctx
    have hnil := (entriesOf_payment w.tasks ▸ h.tasks.entries .payment).eq_nil
    have hnone := (hnil ▸ hacc.entries .payment).symm.eq_nil
    have hmem : t ∈ w.tasks.filter fun t => t.context.type = .payment := by
      refine List.mem_filter.mpr ⟨List.mem_of_getElem? ht, ?_⟩
      rw [hpayment]
      rfl
    have hsome := (h.recorded i t ht).mpr hrecord
    rw [List.filterMap_eq_nil_iff.mp hnone t hmem] at hsome
    cases hsome
  · intro hno
    have hpayments : ∀ t ∈ w.tasks, t.context.type = .payment → t.entry? = none := by
      intro t ht htype
      obtain ⟨i, hi⟩ := List.getElem?_of_mem ht
      cases hctx : t.context with
      | payment ctx =>
        refine Option.not_isSome_iff_eq_none.mp fun hsome => ?_
        refine hno i ctx ((h.recorded i t hi).mp hsome) ?_
        rw [← h.same, List.getElem?_map, hi, Option.map_some, hctx]
      | _ =>
        rw [hctx] at htype
        cases htype
    have hentries := fun type => entriesOf_eq hpayments type ▸ h.tasks.entries type
    have hexecuted : w.tasks.all Task.isDone → ∀ type,
        (w.shared.collector.metric type).entries.length =
          contexts.countP fun ctx => ctx.type = type := by
      intro hdone type
      rw [(hentries type).length_eq, length_entries_of_done hdone, h.same]
    refine ⟨h.same, hentries, h.tasks.truthful, h.tasks.registered, hexecuted, ?_, ?_⟩
    · intro hdone type hts
      rw [(h.tasks.unsummed type).summary_totals hts, hexecuted hdone]
    · intro hdone
      have hnone : w.tasks.filterMap Task.driver? = [] :=
        List.filterMap_eq_nil_iff.mpr fun t ht =>
          driver?_of_done (List.all_eq_true.mp hdone t ht)
      have hregistered := h.tasks.registered
      rwa [hnone, List.append_nil] at hregistered

end Runs

/-- Two tasks and one driver, to the point where the second has its transaction behind it. -/
def twoTasks : List (Nat × Act) :=
  [(0, .use), (1, .use), (0, .drive (oneDistrict 1) [.error] 20 5), (0, .record), (0, .release),
    (1, .use), (1, .drive (oneDistrict 1) [.throws] 20 9)]

theorem accounted_iff_twoTasks : ∃ w, runSteps (Workers.step exactPlatform)
    (Workers.start [7] [.stockLevel ⟨1, 1, 15⟩, .payment onePayment]) twoTasks = some w ∧
    Accounted exactPlatform [7] [.stockLevel ⟨1, 1, 15⟩, .payment onePayment] w := by
  obtain ⟨w, hrun⟩ : ∃ w, runSteps (Workers.step exactPlatform)
      (Workers.start [7] [.stockLevel ⟨1, 1, 15⟩, .payment onePayment]) twoTasks = some w := ⟨_, rfl⟩
  refine ⟨w, hrun, (accounted_iff hrun).mpr ?_⟩
  intro i ctx hrecord
  simp only [twoTasks, List.mem_cons, Prod.mk.injEq, reduceCtorEq, and_false, and_true, false_or,
    or_false, List.not_mem_nil] at hrecord
  rw [hrecord]
  exact nofun

/-- A payment by itself. -/
theorem not_accounted_payment : ∃ w, runSteps (Workers.step exactPlatform)
    (Workers.start [7] [.payment onePayment])
    [(0, .use), (0, .drive (oneDistrict 1) [.error] 20 5), (0, .record), (0, .release)] = some w ∧
    ¬ Accounted exactPlatform [7] [.payment onePayment] w := by
  refine ⟨_, rfl, fun h => ?_⟩
  exact absurd (h.executed rfl .delivery) (by decide)

end CxxLab.DuckdbLab
