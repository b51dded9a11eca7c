import Mathlib.Algebra.Order.Ring.Nat
import Mathlib.Data.List.Pairwise
import Mathlib.Data.List.Forall2
import Mathlib.Order.Monotone.Basic

/-!
# `duckdb_lab/Utils.cpp` — ids from the clock

A `SafeIDGenerator` gives out ids in blocks. Each block has a time stamp of its own, which is the
clock where that has moved on and the last stamp plus one where it has not, and room for
`MAX_IDS_PER_MICRO` ids. One reading of the clock goes with one block, so the stamps are a function
of the readings: `stamp`. That they go up is all there is to it, and what has to be shown of the two
entry points is that they cut what they are asked for into such blocks.

Ids are `int64_t`, and the stamp is multiplied as a `size_t`: what does not fit wraps.
-/

set_option autoImplicit false

namespace CxxLab.DuckdbLab

/-- The readings of the clock, in microseconds. -/
abbrev Clock := Nat → Int

/-- A number as an `int64_t`. -/
def int64 (x : Int) : Int := x.bmod (2 ^ 64)

/-- `SafeIDGenerator`, and how often the clock was read. -/
structure SafeIDGenerator where
  timeStampMs : Int
  reads : Nat

namespace SafeIDGenerator

def new : SafeIDGenerator := ⟨0, 0⟩

def maxIdsPerMicro : Nat := 1000

/-- The part that the entry points share: a new time stamp. -/
def tick (clock : Clock) (g : SafeIDGenerator) : SafeIDGenerator :=
  let micros := clock g.reads
  ⟨if micros ≤ g.timeStampMs then g.timeStampMs + 1 else micros, g.reads + 1⟩

/-- `SafeIDGenerator::GetNextIDNumber`. -/
def getNextIDNumber (clock : Clock) (g : SafeIDGenerator) : Int × SafeIDGenerator :=
  let g := g.tick clock
  (int64 (g.timeStampMs * maxIdsPerMicro), g)

/-- `SafeIDGenerator::NextIDNumbers`. -/
def nextIDNumbers (clock : Clock) (n : Nat) (ids : List Int) (g : SafeIDGenerator) :
    Bool × List Int × SafeIDGenerator :=
  if n = 0 ∨ n > maxIdsPerMicro then (false, ids, g)
  else
    let g := g.tick clock
    let idHighPart := int64 (g.timeStampMs * maxIdsPerMicro)
    (true, ids ++ (List.range n).map fun (pos : Nat) => int64 (idHighPart + pos), g)

/-- The loop of `SafeIDGenerator::GetNextIDNumbers`. -/
def idsLoop (clock : Clock) (n : Nat) (ids : List Int) (g : SafeIDGenerator) :
    Bool × List Int × SafeIDGenerator :=
  if n = 0 then (true, ids, g)
  else if n > maxIdsPerMicro then
    match nextIDNumbers clock maxIdsPerMicro ids g with
    | (false, rest) => (false, rest)
    | (true, ids, g) => idsLoop clock (n - maxIdsPerMicro) ids g
  else nextIDNumbers clock n ids g
termination_by n
decreasing_by
  rw [maxIdsPerMicro]
  omega

/-- `SafeIDGenerator::GetNextIDNumbers`. -/
def getNextIDNumbers (clock : Clock) (n : Nat) (g : SafeIDGenerator) :
    Bool × List Int × SafeIDGenerator :=
  idsLoop clock n [] g

inductive Call where
  | getNextIDNumber
  | getNextIDNumbers (n : Nat)

/-- What a call returns: whether it succeeds, and its ids. -/
def call (clock : Clock) (g : SafeIDGenerator) : Call → Bool × List Int × SafeIDGenerator
  | .getNextIDNumber =>
    let (id, g) := g.getNextIDNumber clock
    (true, [id], g)
  | .getNextIDNumbers n => g.getNextIDNumbers clock n

/-- What the calls of a sequence return, one after another. -/
def results (clock : Clock) : List Call → SafeIDGenerator → List (Bool × List Int)
  | [], _ => []
  | c :: calls, g =>
    let (ok, ids, g) := g.call clock c
    (ok, ids) :: results clock calls g

/-! ## Stamps and blocks -/

/-- The time stamp after so many readings. -/
def stamp (clock : Clock) : Nat → Int
  | 0 => 0
  | j + 1 => if clock j ≤ stamp clock j then stamp clock j + 1 else clock j

/-- The generator after so many readings. -/
def after (clock : Clock) (j : Nat) : SafeIDGenerator := ⟨stamp clock j, j⟩

/-- The ids of a block. -/
def block (clock : Clock) (j n : Nat) : List Int :=
  (List.range n).map fun (pos : Nat) => stamp clock (j + 1) * maxIdsPerMicro + pos

/-- The ids of blocks of these sizes, one after another. -/
def blocks (clock : Clock) : Nat → List Nat → List Int
  | _, [] => []
  | j, n :: ns => block clock j n ++ blocks clock (j + 1) ns

/-- The blocks that a number of ids is cut into. -/
def chop (n : Nat) : List Nat :=
  if n = 0 then []
  else if n > maxIdsPerMicro then maxIdsPerMicro :: chop (n - maxIdsPerMicro)
  else [n]
termination_by n
decreasing_by
  rw [maxIdsPerMicro]
  omega

def Call.sizes : Call → List Nat
  | .getNextIDNumber => [1]
  | .getNextIDNumbers n => chop n

/-- **Every id is an `int64_t`**: those of each block, at the stamp of the block. -/
def Fits (clock : Clock) (calls : List Call) : Prop :=
  ∀ j n : Nat, (calls.flatMap Call.sizes)[j]? = some n →
    stamp clock (j + 1) * maxIdsPerMicro + n ≤ 2 ^ 63

/-- The call succeeds, with as many ids as were asked for. -/
def Succeeds : Call → Bool × List Int → Prop
  | .getNextIDNumber, r => r.1 = true ∧ r.2.length = 1
  | .getNextIDNumbers n, r => r.1 = true ∧ r.2.length = n

theorem stamp_lt_succ (clock : Clock) (j : Nat) : stamp clock j < stamp clock (j + 1) := by
  rw [stamp]
  split
  · exact Int.lt_succ _
  · rename_i hmoved
    exact not_le.mp hmoved

theorem stamp_nonneg (clock : Clock) (j : Nat) : 0 ≤ stamp clock j := by
  induction j with
  | zero => exact le_refl _
  | succ j ih => exact ih.trans (stamp_lt_succ clock j).le

theorem tick_after (clock : Clock) (j : Nat) : (after clock j).tick clock = after clock (j + 1) := rfl

/-! ## The ids of the blocks go up -/

theorem mem_block {clock : Clock} {j n : Nat} {id : Int} : id ∈ block clock j n ↔
    ∃ pos < n, stamp clock (j + 1) * maxIdsPerMicro + (pos : Int) = id := by
  simp [block]

theorem block_pairwise (clock : Clock) (j n : Nat) : (block clock j n).Pairwise (· < ·) := by
  refine List.pairwise_map.mpr (List.pairwise_lt_range.imp fun hlt => ?_)
  omega

/-- What comes later has a later stamp. -/
theorem le_of_mem_blocks {clock : Clock} {ns : List Nat} : ∀ {j : Nat} {id : Int},
    id ∈ blocks clock j ns → (stamp clock j + 1) * maxIdsPerMicro ≤ id := by
  induction ns with
  | nil => intro j id h; cases h
  | cons n ns ih =>
    intro j id h
    have hstamp := stamp_lt_succ clock j
    rcases List.mem_append.mp h with hfirst | hlater
    · obtain ⟨pos, -, rfl⟩ := mem_block.mp hfirst
      rw [maxIdsPerMicro]
      omega
    · have := ih hlater
      rw [maxIdsPerMicro] at this ⊢
      omega

/-- **Blocks do not overlap**, so their ids go up. -/
theorem blocks_pairwise {clock : Clock} {ns : List Nat} (hns : ∀ n ∈ ns, n ≤ maxIdsPerMicro) :
    ∀ j, (blocks clock j ns).Pairwise (· < ·) := by
  induction ns with
  | nil => intro j; exact .nil
  | cons n ns ih =>
    intro j
    obtain ⟨hn, hns⟩ := List.forall_mem_cons.mp hns
    refine List.pairwise_append.mpr ⟨block_pairwise clock j n, ih hns (j + 1), ?_⟩
    intro id hid id' hid'
    obtain ⟨pos, hpos, rfl⟩ := mem_block.mp hid
    have hlater := le_of_mem_blocks hid'
    rw [maxIdsPerMicro] at hn hlater ⊢
    omega

/-! ## What the calls return -/

theorem chop_le {n : Nat} : ∀ m ∈ chop n, m ≤ maxIdsPerMicro := by
  induction n using chop.induct with
  | case1 => simp [chop]
  | case2 n hn hbig ih =>
    rw [chop, if_neg hn, if_pos hbig]
    exact List.forall_mem_cons.mpr ⟨le_refl _, ih⟩
  | case3 n hn hsmall =>
    rw [chop, if_neg hn, if_neg hsmall]
    simpa using hsmall

theorem sum_chop (n : Nat) : (chop n).sum = n := by
  induction n using chop.induct with
  | case1 => simp [chop]
  | case2 n hn hbig ih =>
    rw [chop, if_neg hn, if_pos hbig, List.sum_cons, ih]
    omega
  | case3 n hn hsmall =>
    rw [chop, if_neg hn, if_neg hsmall, List.sum_singleton]

theorem length_blocks (clock : Clock) (ns : List Nat) : ∀ j, (blocks clock j ns).length = ns.sum := by
  induction ns with
  | nil => intro j; rfl
  | cons n ns ih =>
    intro j
    rw [blocks, List.length_append, ih, block, List.length_map, List.length_range, List.sum_cons]

theorem int64_add (x y : Int) : int64 (int64 x + y) = int64 (x + y) := Int.bmod_add_bmod

theorem int64_of_lt {x : Int} (hnonneg : 0 ≤ x) (hlt : x < 2 ^ 63) : int64 x = x :=
  Int.bmod_eq_of_le (by omega) (by omega)

/-- `NextIDNumbers` gives a block. -/
theorem nextIDNumbers_after (clock : Clock) {n : Nat} (hn : n ≠ 0) (hle : n ≤ maxIdsPerMicro)
    (ids : List Int) (j : Nat) : nextIDNumbers clock n ids (after clock j) =
      (true, ids ++ (block clock j n).map int64, after clock (j + 1)) := by
  have hvalid : ¬ (n = 0 ∨ n > maxIdsPerMicro) := by omega
  rw [nextIDNumbers, if_neg hvalid, tick_after, block, List.map_map]
  simp only [int64_add]
  rfl

/-- The loop gives blocks. -/
theorem idsLoop_after {clock : Clock} {n : Nat} : ∀ (ids : List Int) (j : Nat),
    idsLoop clock n ids (after clock j) =
      (true, ids ++ (blocks clock j (chop n)).map int64, after clock (j + (chop n).length)) := by
  induction n using chop.induct with
  | case1 =>
    intro ids j
    rw [idsLoop, if_pos rfl, chop, if_pos rfl]
    simp [blocks]
  | case2 n hn hbig ih =>
    intro ids j
    have hblock := nextIDNumbers_after clock (n := maxIdsPerMicro) (by decide) (le_refl _) ids j
    rw [idsLoop, if_neg hn, if_pos hbig, hblock, chop, if_neg hn, if_pos hbig]
    simp only [ih, blocks, List.map_append, List.append_assoc, List.length_cons, Nat.add_assoc,
      Nat.add_comm 1]
  | case3 n hn hsmall =>
    intro ids j
    rw [idsLoop, if_neg hn, if_neg hsmall, chop, if_neg hn, if_neg hsmall,
      nextIDNumbers_after clock hn (not_lt.mp hsmall)]
    simp [blocks]

/-- **Every call** gives the blocks it asks for. -/
theorem call_after (clock : Clock) (j : Nat) (c : Call) :
    (after clock j).call clock c =
      (true, (blocks clock j c.sizes).map int64, after clock (j + c.sizes.length)) := by
  cases c with
  | getNextIDNumber =>
    simp only [call, getNextIDNumber, tick_after]
    simp [Call.sizes, blocks, block, after]
  | getNextIDNumbers n => exact idsLoop_after [] j

theorem blocks_append (clock : Clock) (ns ms : List Nat) : ∀ j,
    blocks clock j (ns ++ ms) = blocks clock j ns ++ blocks clock (j + ns.length) ms := by
  induction ns with
  | nil => intro j; rfl
  | cons n ns ih =>
    intro j
    rw [List.cons_append, blocks, ih, blocks, List.append_assoc, List.length_cons, Nat.add_assoc,
      Nat.add_comm 1]

theorem results_after (clock : Clock) (calls : List Call) : ∀ j,
    (results clock calls (after clock j)).flatMap Prod.snd =
      (blocks clock j (calls.flatMap Call.sizes)).map int64 := by
  induction calls with
  | nil => intro j; rfl
  | cons c calls ih =>
    intro j
    simp only [results, call_after, List.flatMap_cons, ih, blocks_append, List.map_append]

theorem succeeds_call (clock : Clock) (j : Nat) (c : Call) :
    Succeeds c (true, (blocks clock j c.sizes).map int64) := by
  have hlen : ((blocks clock j c.sizes).map int64).length = c.sizes.sum := by
    rw [List.length_map, length_blocks]
  cases c with
  | getNextIDNumber => exact ⟨rfl, hlen⟩
  | getNextIDNumbers n => exact ⟨rfl, hlen.trans (sum_chop n)⟩

theorem results_succeed (clock : Clock) (calls : List Call) : ∀ j,
    List.Forall₂ Succeeds calls (results clock calls (after clock j)) := by
  induction calls with
  | nil => intro j; exact .nil
  | cons c calls ih =>
    intro j
    simp only [results, call_after]
    exact .cons (succeeds_call clock j c) (ih _)

/-- Ids that fit are what they are. -/
theorem map_int64_blocks {clock : Clock} {ns : List Nat} : ∀ {j : Nat},
    (∀ i n : Nat, ns[i]? = some n → stamp clock (j + i + 1) * maxIdsPerMicro + n ≤ 2 ^ 63) →
    (blocks clock j ns).map int64 = blocks clock j ns := by
  induction ns with
  | nil => intro j _; rfl
  | cons n ns ih =>
    intro j hfits
    have hrest : (blocks clock (j + 1) ns).map int64 = blocks clock (j + 1) ns := by
      refine ih fun i m hm => ?_
      have := hfits (i + 1) m hm
      rwa [← Nat.add_assoc, Nat.add_right_comm j i 1] at this
    have hblock : (block clock j n).map int64 = block clock j n := by
      refine (List.map_congr_left fun id hid => ?_).trans (List.map_id _)
      obtain ⟨pos, hpos, rfl⟩ := mem_block.mp hid
      have hfirst : stamp clock (j + 1) * maxIdsPerMicro + n ≤ 2 ^ 63 := hfits 0 n rfl
      have hstamp := stamp_nonneg clock (j + 1)
      rw [maxIdsPerMicro] at hfirst ⊢
      exact int64_of_lt (by omega) (by omega)
    rw [blocks, List.map_append, hblock, hrest]

theorem sizes_le {calls : List Call} : ∀ n ∈ calls.flatMap Call.sizes, n ≤ maxIdsPerMicro := by
  intro n hn
  obtain ⟨c, -, hc⟩ := List.mem_flatMap.mp hn
  cases c with
  | getNextIDNumber =>
    rw [List.mem_singleton.mp hc]
    decide
  | getNextIDNumbers m => exact chop_le n hc

/-- **Ids are unique and increasing**, over all calls of a sequence and whatever the clock does, and
each call gives as many as it was asked for.

An id is the stamp of its block times `MAX_IDS_PER_MICRO` and its place in the block. No two blocks
have one stamp: it is the clock where that has moved on, and the last stamp plus one where it has
not. What is left to ask is that the ids fit in 64 bits. -/
theorem results_increasing (clock : Clock) {calls : List Call} (hfits : Fits clock calls) :
    List.Forall₂ Succeeds calls (results clock calls new) ∧
      ((results clock calls new).flatMap Prod.snd).Pairwise (· < ·) := by
  refine ⟨results_succeed clock calls 0, ?_⟩
  have hids := results_after clock calls 0
  rw [map_int64_blocks fun i n hn => by simpa using hfits i n hn] at hids
  exact hids ▸ blocks_pairwise sizes_le 0

/-- A clock that stands, then is put back, then goes on. -/
def unsteady : Clock := fun j => [1700000000000000, 1700000000000000, 3, 4].getD j 1700000000000007

def someCalls : List Call := [.getNextIDNumber, .getNextIDNumbers 2, .getNextIDNumbers 0,
  .getNextIDNumber, .getNextIDNumbers 1001]

theorem results_increasing_someCalls :
    List.Forall₂ Succeeds someCalls (results unsteady someCalls new) ∧
      ((results unsteady someCalls new).flatMap Prod.snd).Pairwise (· < ·) := by
  refine results_increasing unsteady fun j n hn => ?_
  have hsizes : someCalls.flatMap Call.sizes = [1, 2, 1, 1000, 1] := by
    simp [someCalls, Call.sizes, chop, maxIdsPerMicro]
  rw [hsizes] at hn
  obtain ⟨hj, rfl⟩ := List.getElem?_eq_some_iff.mp hn
  decide +revert

/-- The last reading whose product with `MAX_IDS_PER_MICRO` is an `int64_t`. -/
def lateClock : Clock := fun _ => 9223372036854775

/-- The stamp is multiplied without overflow, and the last id of the block wraps. -/
theorem not_increasing_lateClock : (∀ j, 0 < lateClock j) ∧
    stamp lateClock 1 * maxIdsPerMicro < 2 ^ 63 ∧
    (Call.getNextIDNumbers 809).sizes = [809] ∧
    ¬ ((results lateClock [.getNextIDNumbers 809] new).flatMap Prod.snd).Pairwise (· < ·) := by
  have hsizes : (Call.getNextIDNumbers 809).sizes = [809] := by
    simp [Call.sizes, chop, maxIdsPerMicro]
  have hwraps : ¬ int64 (stamp lateClock 1 * maxIdsPerMicro + 0) <
      int64 (stamp lateClock 1 * maxIdsPerMicro + 808) := by decide
  refine ⟨fun _ => by rw [lateClock]; decide, by decide, hsizes, fun h => ?_⟩
  have hids := results_after lateClock [.getNextIDNumbers 809] 0
  rw [List.flatMap_singleton, hsizes] at hids
  change (results lateClock [.getNextIDNumbers 809] new).flatMap Prod.snd = _ at hids
  rw [hids, blocks, blocks, List.append_nil, block, List.map_map, List.pairwise_map] at h
  have hlast := List.pairwise_iff_getElem.mp h 0 808 (by simp) (by simp) (by decide)
  rw [List.getElem_range, List.getElem_range] at hlast
  exact hwraps hlast

end SafeIDGenerator

end CxxLab.DuckdbLab
