import Mathlib.Algebra.Order.Ring.Nat
import Mathlib.Algebra.BigOperators.Group.List.Basic
import Mathlib.Data.List.Induction

/-!
# `duckdb_lab/Collector.h` — metrics

A `Metric` keeps all its entries, and `Summary` counts them again when there is something new. What it
takes for something new is a time stamp: `Record` moves `last_modify_ts_` up to the stamp of the entry,
if that is later, and `Summary` does nothing unless it has moved. The stamps are those of the ends of
the tasks, which several workers took before they came to record them; an entry that is not later than
all before it moves nothing.

The rates and the average, which are floats, are left out. The sums are of 64 bits.
-/

set_option autoImplicit false

namespace CxxLab.DuckdbLab

structure MetricEntry where
  execTimeUs : Nat
  isCommit : Bool
  ts : Nat
  deriving DecidableEq

structure Metric where
  entries : List MetricEntry
  commits : Nat
  rollbacks : Nat
  totals : Nat
  totalCommitsTime : Nat
  totalRollbackTime : Nat
  lastSummaryTs : Nat
  lastModifyTs : Nat
  deriving DecidableEq

namespace Metric

def new : Metric := ⟨[], 0, 0, 0, 0, 0, 0, 0⟩

/-- `Metric::Record`. -/
def record (m : Metric) (entry : MetricEntry) : Metric :=
  { m with
    entries := m.entries ++ [entry]
    lastModifyTs := if entry.ts > m.lastModifyTs then entry.ts else m.lastModifyTs }

/-- `Metric::Reset`. -/
def reset (m : Metric) : Metric :=
  { m with
    commits := 0, rollbacks := 0, totals := 0, totalCommitsTime := 0, totalRollbackTime := 0 }

/-- The body of the loop of `Summary`. -/
def count (m : Metric) (entry : MetricEntry) : Metric :=
  if entry.isCommit then
    { m with
      commits := m.commits + 1
      totalCommitsTime := (m.totalCommitsTime + entry.execTimeUs) % 2 ^ 64 }
  else
    { m with
      rollbacks := m.rollbacks + 1
      totalRollbackTime := (m.totalRollbackTime + entry.execTimeUs) % 2 ^ 64 }

/-- `Metric::Summary`. -/
def summary (m : Metric) : Metric :=
  if m.lastSummaryTs ≥ m.lastModifyTs then m
  else
    let m := m.entries.foldl count { m.reset with totals := m.entries.length }
    { m with lastSummaryTs := m.lastModifyTs }

end Metric

/-- `Collector`, less the time it is told. -/
structure Collector where
  dM : Metric
  noM : Metric
  osM : Metric
  slM : Metric
  pM : Metric

namespace Collector

def new : Collector := ⟨.new, .new, .new, .new, .new⟩

def recordDeliveryEntry (c : Collector) (entry : MetricEntry) : Collector :=
  { c with dM := c.dM.record entry }

def recordOrderEntry (c : Collector) (entry : MetricEntry) : Collector :=
  { c with osM := c.osM.record entry }

def recordNewOrderEntry (c : Collector) (entry : MetricEntry) : Collector :=
  { c with noM := c.noM.record entry }

def recordStockLevelEntry (c : Collector) (entry : MetricEntry) : Collector :=
  { c with slM := c.slM.record entry }

def recordPaymentEntry (c : Collector) (entry : MetricEntry) : Collector :=
  { c with pM := c.pM.record entry }

end Collector

/-! ## Summaries -/

/-- The sum of the execution times of the committed entries, or of the others. -/
def execTime (committed : Bool) (entries : List MetricEntry) : Nat :=
  ((entries.filter fun e => e.isCommit = committed).map MetricEntry.execTimeUs).sum

/-- The latest stamp. -/
def lastTs (entries : List MetricEntry) : Nat := entries.foldl (fun t e => max t e.ts) 0

/-- **The summary is of these entries.** -/
structure Accurate (entries : List MetricEntry) (m : Metric) : Prop where
  totals : m.totals = entries.length
  commits : m.commits = entries.countP fun e => e.isCommit = true
  rollbacks : m.rollbacks = entries.countP fun e => e.isCommit = false
  commitsTime : m.totalCommitsTime = execTime true entries
  rollbackTime : m.totalRollbackTime = execTime false entries

/-- The sums are of 64 bits. -/
def SumsFit (entries : List MetricEntry) : Prop :=
  execTime true entries < 2 ^ 64 ∧ execTime false entries < 2 ^ 64

theorem execTime_concat (committed : Bool) (entries : List MetricEntry) (e : MetricEntry) :
    execTime committed (entries ++ [e]) =
      execTime committed entries + if e.isCommit = committed then e.execTimeUs else 0 := by
  rw [execTime, List.filter_append, List.map_append, List.sum_append, execTime]
  congr 1
  by_cases h : e.isCommit = committed
  · simp [h]
  · simp [h]

theorem lastTs_concat (entries : List MetricEntry) (e : MetricEntry) :
    lastTs (entries ++ [e]) = max (lastTs entries) e.ts := by
  rw [lastTs, List.foldl_append]
  rfl

theorem lastTs_lt_iff {entries : List MetricEntry} {t : Nat} :
    lastTs entries < t ↔ 0 < t ∧ ∀ e ∈ entries, e.ts < t := by
  induction entries using List.reverseRecOn with
  | nil => simp [lastTs]
  | append_singleton entries e ih =>
    rw [lastTs_concat, max_lt_iff, ih]
    simp only [List.mem_append, List.mem_singleton, or_imp, forall_and, forall_eq, and_assoc]

theorem lastTs_le_append {before since : List MetricEntry} :
    lastTs before ≤ lastTs (before ++ since) := by
  induction since using List.reverseRecOn with
  | nil => rw [List.append_nil]
  | append_singleton since e ih =>
    rw [← List.append_assoc, lastTs_concat]
    exact le_max_of_le_left ih

theorem lastTs_lt_append_iff {before since : List MetricEntry} :
    lastTs before < lastTs (before ++ since) ↔
      ∃ e ∈ since, 0 < e.ts ∧ ∀ e' ∈ before, e'.ts < e.ts := by
  induction since using List.reverseRecOn with
  | nil => simp
  | append_singleton since e ih =>
    rw [← List.append_assoc, lastTs_concat, lt_max_iff, ih, lastTs_lt_iff]
    simp only [List.mem_append, List.mem_singleton, or_and_right, exists_or, exists_eq_left]

/-- What the loop of `Summary` has counted. -/
theorem foldl_count (m : Metric) (n : Nat) (entries : List MetricEntry) :
    entries.foldl Metric.count { m.reset with totals := n } = { m with
      totals := n
      commits := entries.countP fun e => e.isCommit = true
      rollbacks := entries.countP fun e => e.isCommit = false
      totalCommitsTime := execTime true entries % 2 ^ 64
      totalRollbackTime := execTime false entries % 2 ^ 64 } := by
  induction entries using List.reverseRecOn with
  | nil => rfl
  | append_singleton entries e ih =>
    rw [List.foldl_append, ih, List.foldl_cons, List.foldl_nil, Metric.count, List.countP_append,
      List.countP_append, execTime_concat, execTime_concat]
    cases he : e.isCommit with
    | true => simp [he]
    | false => simp [he]

theorem commits_add_rollbacks (entries : List MetricEntry) :
    (entries.countP fun e => e.isCommit = true) + (entries.countP fun e => e.isCommit = false) =
      entries.length := by
  rw [List.length_eq_countP_add_countP fun e : MetricEntry => e.isCommit = true]
  simp

/-- **The assertion of `Summary` holds** wherever it is made: what has been counted are all entries. -/
theorem commits_add_rollbacks_summary {m : Metric} (hmoved : m.lastSummaryTs < m.lastModifyTs) :
    m.summary.commits + m.summary.rollbacks = m.summary.totals := by
  rw [Metric.summary, if_neg (not_le.mpr hmoved)]
  simp only [foldl_count]
  exact commits_add_rollbacks m.entries

/-- **Counting again** gives a summary of all entries if their times can be summed. -/
theorem accurate_summary_iff {m : Metric} (hmoved : m.lastSummaryTs < m.lastModifyTs) :
    Accurate m.entries m.summary ↔ SumsFit m.entries := by
  rw [Metric.summary, if_neg (not_le.mpr hmoved)]
  simp only [foldl_count]
  constructor
  · intro h
    exact ⟨h.commitsTime ▸ Nat.mod_lt _ (by decide), h.rollbackTime ▸ Nat.mod_lt _ (by decide)⟩
  · intro h
    exact ⟨rfl, rfl, rfl, Nat.mod_eq_of_lt h.1, Nat.mod_eq_of_lt h.2⟩

/-! ## Runs -/

namespace Metric

inductive Op where
  | record (entry : MetricEntry)
  | summary
  deriving DecidableEq

def step (m : Metric) : Op → Metric
  | .record entry => m.record entry
  | .summary => m.summary

/-- The metric after every `Summary` of a run is a summary of what was recorded. -/
def NeverStale : Metric → List Op → Prop
  | _, [] => True
  | m, op :: ops => (op = .summary → Accurate m.entries (m.step op)) ∧ NeverStale (m.step op) ops

/-- **The stamps move**: where something was recorded since the last `Summary`, one of the new entries
is later than all that there were at that time. And the times can be summed. The lists are what was
recorded before the last `Summary` and what was recorded since. -/
def StampsMove : List MetricEntry → List MetricEntry → List Op → Prop
  | _, _, [] => True
  | before, since, .record entry :: ops => StampsMove before (since ++ [entry]) ops
  | before, since, .summary :: ops =>
    (since = [] ∨ (∃ e ∈ since, 0 < e.ts ∧ ∀ e' ∈ before, e'.ts < e.ts) ∧
      SumsFit (before ++ since)) ∧ StampsMove (before ++ since) [] ops

/-- A metric whose last `Summary` was accurate. -/
structure Summed (before since : List MetricEntry) (m : Metric) : Prop where
  entries : m.entries = before ++ since
  lastModifyTs : m.lastModifyTs = lastTs (before ++ since)
  lastSummaryTs : m.lastSummaryTs = lastTs before
  accurate : Accurate before m

theorem Summed.of_new : Summed [] [] new := ⟨rfl, rfl, rfl, rfl, rfl, rfl, rfl, rfl⟩

variable {m : Metric} {before since : List MetricEntry}

theorem Summed.record (h : Summed before since m) (entry : MetricEntry) :
    Summed before (since ++ [entry]) (m.record entry) where
  entries := by rw [Metric.record, h.entries, List.append_assoc]
  lastModifyTs := by
    rw [← List.append_assoc, lastTs_concat, ← h.lastModifyTs]
    show (if entry.ts > m.lastModifyTs then entry.ts else m.lastModifyTs) = _
    split
    · rename_i hlater
      exact (max_eq_right hlater.le).symm
    · rename_i hearlier
      exact (max_eq_left (not_lt.mp hearlier)).symm
  lastSummaryTs := h.lastSummaryTs
  accurate := ⟨h.accurate.totals, h.accurate.commits, h.accurate.rollbacks, h.accurate.commitsTime,
    h.accurate.rollbackTime⟩

theorem Summed.moved_iff (h : Summed before since m) : m.lastSummaryTs < m.lastModifyTs ↔
    ∃ e ∈ since, 0 < e.ts ∧ ∀ e' ∈ before, e'.ts < e.ts := by
  rw [h.lastSummaryTs, h.lastModifyTs, lastTs_lt_append_iff]

/-- **One `Summary`**: it is of all entries if there are no new ones, or the stamp has moved and the
times can be summed. -/
theorem Summed.accurate_iff (h : Summed before since m) : Accurate m.entries m.summary ↔
    since = [] ∨ (∃ e ∈ since, 0 < e.ts ∧ ∀ e' ∈ before, e'.ts < e.ts) ∧
      SumsFit (before ++ since) := by
  rw [← h.moved_iff, ← h.entries]
  by_cases hmoved : m.lastSummaryTs < m.lastModifyTs
  · have hsince : since ≠ [] := by
      rintro rfl
      obtain ⟨e, he, -⟩ := h.moved_iff.mp hmoved
      exact List.not_mem_nil he
    rw [accurate_summary_iff hmoved, or_iff_right hsince, and_iff_right hmoved]
  · -- nothing is counted again
    have hskip : m.summary = m := if_pos (not_lt.mp hmoved)
    rw [hskip, or_iff_left fun h' => hmoved h'.1, h.entries]
    constructor
    · intro hacc
      have hlen := h.accurate.totals.symm.trans hacc.totals
      rw [List.length_append] at hlen
      exact List.eq_nil_of_length_eq_zero (by omega)
    · rintro rfl
      rw [List.append_nil]
      exact h.accurate

theorem summary_entries (m : Metric) : m.summary.entries = m.entries := by
  rw [Metric.summary]
  split
  · rfl
  · rw [foldl_count]

theorem summary_lastModifyTs (m : Metric) : m.summary.lastModifyTs = m.lastModifyTs := by
  rw [Metric.summary]
  split
  · rfl
  · rw [foldl_count]

theorem summary_lastSummaryTs (m : Metric) :
    m.summary.lastSummaryTs = max m.lastSummaryTs m.lastModifyTs := by
  rw [Metric.summary]
  split
  · rename_i hskip
    exact (max_eq_left hskip).symm
  · rename_i hmoved
    rw [foldl_count]
    exact (max_eq_right (not_le.mp hmoved).le).symm

/-- The count alone does not depend on the times. -/
theorem Summed.summary_totals (h : Summed [] since m) (hts : ∀ e ∈ since, 0 < e.ts) :
    m.summary.totals = m.entries.length := by
  by_cases hmoved : m.lastSummaryTs < m.lastModifyTs
  · rw [Metric.summary, if_neg (not_le.mpr hmoved)]
    simp only [foldl_count]
  · have hsince : since = [] := by
      refine List.eq_nil_iff_forall_not_mem.mpr fun e he => hmoved (h.moved_iff.mpr ?_)
      exact ⟨e, he, hts e he, nofun⟩
    exact (h.accurate_iff.mpr (.inl hsince)).totals

theorem Summed.summary (h : Summed before since m) (hacc : Accurate m.entries m.summary) :
    Summed (before ++ since) [] m.summary where
  entries := by rw [summary_entries, h.entries, List.append_nil]
  lastModifyTs := by rw [summary_lastModifyTs, h.lastModifyTs, List.append_nil]
  lastSummaryTs := by
    rw [summary_lastSummaryTs, h.lastSummaryTs, h.lastModifyTs, max_eq_right lastTs_le_append]
  accurate := h.entries ▸ hacc

/-- **Summaries are never stale** exactly in the runs whose stamps move.

`Summary` counts again only if `last_modify_ts_` has moved, and `Record` moves it only to a later
stamp. So entries that are not later than all before them are not counted until one comes that is,
and an entry with the stamp 0 moves nothing. `StampsMove` goes through the run with the entries that
have been counted and those that have not, and asks at each `Summary` that one of these is later,
and that the times can be summed in 64 bits. -/
theorem neverStale_iff (ops : List Op) : NeverStale new ops ↔ StampsMove [] [] ops := by
  have hrun : ∀ (ops : List Op) {before since : List MetricEntry} {m : Metric},
      Summed before since m → (NeverStale m ops ↔ StampsMove before since ops) := by
    intro ops
    induction ops with
    | nil => intro before since m _; exact Iff.rfl
    | cons op ops ih =>
      intro before since m h
      cases op with
      | record entry =>
        rw [NeverStale, StampsMove, ← ih (h.record entry)]
        exact and_iff_right nofun
      | summary =>
        simp only [NeverStale, StampsMove, true_imp_iff]
        rw [← h.accurate_iff]
        exact and_congr_right fun hacc => ih (h.summary hacc)
  exact hrun ops .of_new

/-- Two tasks that end in the same microsecond, with a summary between their records. -/
theorem not_neverStale_sameStamp :
    ¬ NeverStale new [.record ⟨10, true, 5⟩, .summary, .record ⟨10, true, 5⟩, .summary] := by
  rintro ⟨-, -, -, hstale, -⟩
  exact absurd (hstale rfl).totals (by decide)

end Metric

end CxxLab.DuckdbLab
