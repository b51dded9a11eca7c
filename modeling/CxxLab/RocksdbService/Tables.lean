import CxxLab.Lib.BigEndian
import CxxLab.Lib.KVStore
import Mathlib.Data.Finset.Card
import Mathlib.Data.List.Dedup
import Mathlib.Tactic.IntervalCases

/-!
# `rocksdb_service/rocksdb_impl.cpp` — table ids

The first shape of the document store: tables have names and ids and nothing else. The next id is
kept in a cache, and in the store under `"TSK"` so that it outlives the process.

That record has two writers. `Init` puts the eight bytes of a `long` when it finds no record;
`CreateTable` puts *the decimal text* of the number. And it has one reader, `Init` again, which
takes the first eight bytes of whatever is there for a `uint64_t`. So the first table that is
created makes the record unreadable: `readWord_decimal_ne`. The ids are right as long as nobody
restarts after a table has been created, and no longer.

The schema passed to `CreateTable` is not looked at, and is left out.
-/

set_option autoImplicit false

namespace CxxLab.RocksdbService

open Std CxxLab.Lib

abbrev Bytes := List UInt8

abbrev Store := KVStore Bytes Bytes

/-! ## Keys and texts -/

/-- `"TSK"`: the next table id. -/
def tableSequenceKey : Bytes := [84, 83, 75]

/-- `"T:"`: table name to id. -/
def tablePrefix : Bytes := [84, 58]

/-- `"TS:"`: the current segment of a table, and the offset in it. -/
def currentSegmentPrefix : Bytes := [84, 83, 58]

/-- `TableKey`. -/
def tableKey (name : Bytes) : Bytes := tablePrefix ++ name

/-- What `ss << n` appends. -/
def decimal (n : UInt64) : Bytes := (Nat.toDigits 10 n.toNat).map fun c => UInt8.ofNat c.toNat

/-! ## The calls -/

structure DBCache where
  tid : UInt64
  segmap : ExtTreeMap UInt64 UInt64

namespace DBCache

/-- `DBCache::SetTid`. -/
def setTid (c : DBCache) (tid : UInt64) : DBCache := { c with tid := tid }

/-- `DBCache::UpdateSegMap`. -/
def updateSegMap (c : DBCache) (tid sid : UInt64) : DBCache :=
  { c with segmap := c.segmap.insert tid sid }

/-- The cache before `Init`. The table id has no value yet. -/
def new : DBCache := ⟨0, ∅⟩

end DBCache

structure RocksDBImpl where
  db : Store
  cache : DBCache

/-- The buffer of a `std::string`: the text, a zero behind it, and behind that whatever the memory
held before. -/
def buffer (text : Bytes) (behind : Nat → UInt8) (i : Nat) : UInt8 :=
  if h : i < text.length then text[i] else if i = text.length then 0 else behind i

/-- `*((uint64_t*)text.data())`: eight bytes of the buffer, the least significant first. -/
def readWord (text : Bytes) (behind : Nat → UInt8) : UInt64 :=
  UInt64.ofNat (BigEndian.ofBytes ((List.range 8).map (buffer text behind)).reverse)

namespace RocksDBImpl

/-- `RocksDBImpl::Init`. -/
def init (db : Store) (behind : Nat → UInt8) : RocksDBImpl :=
  match db[tableSequenceKey]? with
  | none => ⟨db.write (.put tableSequenceKey (List.replicate 8 0)), DBCache.new.setTid 0⟩
  | some seq => ⟨db, DBCache.new.setTid (readWord seq behind)⟩

/-- `RocksDBImpl::CreateTable`. It asserts that its write succeeds. -/
def createTable (impl : RocksDBImpl) (tableName : Bytes) : RocksDBImpl :=
  match impl.db[tableKey tableName]? with
  | some _ => impl
  | none =>
    let tid := impl.cache.tid
    let nextTid := tid + 1
    let wb : List (Write Bytes Bytes) :=
      [.put tableSequenceKey (decimal nextTid),
        .put (tableKey tableName) (decimal tid),
        .put (currentSegmentPrefix ++ decimal tid) (decimal tid ++ [44] ++ [48])]
    ⟨impl.db.apply wb, (impl.cache.updateSegMap tid 0).setTid nextTid⟩

end RocksDBImpl

/-! ## Runs -/

/-- A call, or a new `RocksDBImpl` on the same store. What is behind the text it reads is not up to
the program. -/
inductive Op where
  | createTable (tableName : Bytes)
  | restart (behind : Nat → UInt8)

def step (impl : RocksDBImpl) : Op → RocksDBImpl
  | .createTable tableName => impl.createTable tableName
  | .restart behind => RocksDBImpl.init impl.db behind

/-- A run on a new store. -/
def run (ops : List Op) : RocksDBImpl := ops.foldl step (RocksDBImpl.init ∅ fun _ => 0)

/-- The table names of a run. -/
def names (ops : List Op) : List Bytes := ops.filterMap fun
  | .createTable tableName => some tableName
  | .restart _ => none

/-- How many tables a run creates. -/
def tableCount (ops : List Op) : Nat := (names ops).toFinset.card

/-- The ids of distinct tables are distinct. -/
def DistinctIds (db : Store) : Prop :=
  ∀ n n' v, db[tableKey n]? = some v → db[tableKey n']? = some v → n = n'

/-- **Table ids survive restarts**: after each restart the cache has the number of tables as the
next id, and all the time distinct tables have distinct ids.

Tables are numbered from 0, so with `n` of them the next id is `n`. The first is said of every
restart and the second of every point of the run; `behind` is what stands in memory behind the text
that `Init` reads. -/
def IdsSurvive (ops : List Op) : Prop :=
  (∀ before behind, before ++ [.restart behind] <+: ops →
    (run (before ++ [.restart behind])).cache.tid.toNat = tableCount before) ∧
  ∀ before, before <+: ops → DistinctIds (run before).db

/-- No restart once there is a table. -/
def RestartsFirst (ops : List Op) : Prop :=
  ∀ before behind, before ++ [.restart behind] <+: ops → names before = []

/-! ## Texts are not words -/

theorem le_of_mem_toDigits {n : Nat} {c : Char} (h : c ∈ Nat.toDigits 10 n) :
    48 ≤ c.toNat ∧ c.toNat ≤ 57 := by
  have hdigit := Nat.isDigit_of_mem_toDigits (by decide) (by decide) h
  simp only [Char.isDigit, Bool.and_eq_true, decide_eq_true_eq, UInt32.le_iff_toNat_le] at hdigit
  exact hdigit

theorem toNat_ofNat_digit {n : Nat} {c : Char} (h : c ∈ Nat.toDigits 10 n) :
    (UInt8.ofNat c.toNat).toNat = c.toNat := by
  have hle := (le_of_mem_toDigits h).2
  exact UInt8.toNat_ofNat_of_lt' (show c.toNat < 256 by omega)

theorem le_of_mem_decimal {n : UInt64} {b : UInt8} (h : b ∈ decimal n) :
    48 ≤ b.toNat ∧ b.toNat ≤ 57 := by
  obtain ⟨c, hc, rfl⟩ := List.mem_map.mp h
  rw [toNat_ofNat_digit hc]
  exact le_of_mem_toDigits hc

theorem decimal_inj {x y : UInt64} (h : decimal x = decimal y) : x = y := by
  have hback : ∀ n : UInt64,
      (decimal n).map (fun b => Char.ofNat b.toNat) = Nat.toDigits 10 n.toNat := by
    intro n
    rw [decimal, List.map_map]
    refine (List.map_congr_left fun c hc => ?_).trans (List.map_id _)
    rw [Function.comp_apply, toNat_ofNat_digit hc, Char.ofNat_toNat]
    rfl
  have hdigits : Nat.toDigits 10 x.toNat = Nat.toDigits 10 y.toNat := by
    rw [← hback, h, hback]
  apply UInt64.toNat_inj.mp
  rw [← @Nat.ofDigitChars_ten_toDigits x.toNat, hdigits, Nat.ofDigitChars_ten_toDigits]

theorem length_decimal_pos (n : UInt64) : 0 < (decimal n).length := by
  rw [decimal, List.length_map]
  exact Nat.length_toDigits_pos

theorem toNat_lt_pow_length (n : UInt64) : n.toNat < 10 ^ (decimal n).length := by
  refine (Nat.length_toDigits_le_iff (by decide) (length_decimal_pos n)).mp ?_
  rw [decimal, List.length_map]

/-- The bytes of the word that is read are those of the buffer. -/
theorem byte_readWord (text : Bytes) (behind : Nat → UInt8) {i : Nat} (hi : i < 8) :
    (readWord text behind).toNat / 256 ^ i % 256 = (buffer text behind i).toNat := by
  have hlt := BigEndian.ofBytes_lt ((List.range 8).map (buffer text behind)).reverse
  rw [List.length_reverse, List.length_map, List.length_range] at hlt
  rw [readWord, UInt64.toNat_ofNat', show 2 ^ 64 = 256 ^ 8 from rfl, Nat.mod_eq_of_lt hlt]
  have hbyte : ∀ j, (buffer text behind j).toNat < 256 := fun j => UInt8.toNat_lt _
  generalize buffer text behind = f at *
  have h₀ := hbyte 0
  have h₁ := hbyte 1
  have h₂ := hbyte 2
  have h₃ := hbyte 3
  have h₄ := hbyte 4
  have h₅ := hbyte 5
  have h₆ := hbyte 6
  have h₇ := hbyte 7
  have hword : BigEndian.ofBytes ((List.range 8).map f).reverse =
      (f 7).toNat * 256 ^ 7 + ((f 6).toNat * 256 ^ 6 + ((f 5).toNat * 256 ^ 5 +
        ((f 4).toNat * 256 ^ 4 + ((f 3).toNat * 256 ^ 3 + ((f 2).toNat * 256 ^ 2 +
          ((f 1).toNat * 256 ^ 1 + ((f 0).toNat * 256 ^ 0 + 0))))))) := rfl
  rw [hword]
  clear hword hlt hbyte
  interval_cases i <;> omega

/-- What `Init` writes it reads back. -/
theorem readWord_zero (behind : Nat → UInt8) : readWord (List.replicate 8 0) behind = 0 := by
  have hbytes : (List.range 8).map (buffer (List.replicate 8 0) behind) = List.replicate 8 0 := by
    refine List.ext_getElem (by simp) fun i hi _ => ?_
    rw [List.length_map, List.length_range] at hi
    rw [List.getElem_map, List.getElem_range, List.getElem_replicate, buffer,
      dif_pos (by simpa using hi), List.getElem_replicate]
  rw [readWord, hbytes]
  decide

/-- **A number is never read back from its text**, unless it is above `2 ^ 61`. -/
theorem readWord_decimal_ne (n : UInt64) (hn : n.toNat < 2 ^ 61) (behind : Nat → UInt8) :
    readWord (decimal n) behind ≠ n := by
  intro heq
  have hpos := length_decimal_pos n
  have hpow := toNat_lt_pow_length n
  -- The last digit that is read is too large a byte for its place.
  obtain ⟨i, hi⟩ : ∃ i, i = min (decimal n).length 8 - 1 := ⟨_, rfl⟩
  have hi8 : i < 8 := by omega
  have hilen : i < (decimal n).length := by omega
  have hbyte := byte_readWord (decimal n) behind hi8
  have hdigit := le_of_mem_decimal (List.getElem_mem hilen)
  rw [heq, buffer, dif_pos hilen] at hbyte
  rw [← hbyte] at hdigit
  clear hbyte heq
  generalize (decimal n).length = l at *
  rcases Nat.lt_or_ge l 8 with hl | hl
  · obtain rfl : i = l - 1 := by omega
    clear hi hn
    interval_cases l <;> omega
  · obtain rfl : i = 7 := by omega
    omega

/-! ## The ids of a run -/

theorem tableKey_inj {n n' : Bytes} : tableKey n = tableKey n' ↔ n = n' :=
  ⟨List.append_cancel_left, congrArg tableKey⟩

theorem tableKey_ne_sequence (n : Bytes) : tableKey n ≠ tableSequenceKey := by
  intro h
  injection h with _ h
  injection h with h _
  exact absurd h (by decide)

theorem segmentKey_ne_sequence (n : Bytes) : currentSegmentPrefix ++ n ≠ tableSequenceKey := by
  intro h
  injection h with _ h
  injection h with _ h
  injection h with h _
  exact absurd h (by decide)

theorem tableKey_ne_segmentKey (n n' : Bytes) : tableKey n ≠ currentSegmentPrefix ++ n' := by
  intro h
  injection h with _ h
  injection h with h _
  exact absurd h (by decide)

/-- The tables are numbered in the order `ns` in which they were created. -/
structure Numbered (impl : RocksDBImpl) (ns : List Bytes) : Prop where
  sequence : impl.db[tableSequenceKey]? =
    some (if ns = [] then List.replicate 8 0 else decimal (UInt64.ofNat ns.length))
  table : ∀ n, impl.db[tableKey n]? =
    if n ∈ ns then some (decimal (UInt64.ofNat (ns.idxOf n))) else none
  tid : impl.cache.tid = UInt64.ofNat ns.length

namespace Numbered

variable {impl : RocksDBImpl} {ns : List Bytes}

theorem init : Numbered (RocksDBImpl.init ∅ fun _ => 0) [] where
  sequence := by simp [RocksDBImpl.init, KVStore.getElem?_put]
  table n := by simp [RocksDBImpl.init, KVStore.getElem?_put, tableKey_ne_sequence]
  tid := rfl

theorem createTable_old (h : Numbered impl ns) {n : Bytes} (hn : n ∈ ns) :
    impl.createTable n = impl := by
  rw [RocksDBImpl.createTable, h.table, if_pos hn]

theorem createTable_new (h : Numbered impl ns) {n : Bytes} (hn : n ∉ ns) :
    Numbered (impl.createTable n) (ns ++ [n]) := by
  have hfree : impl.db[tableKey n]? = none := by rw [h.table, if_neg hn]
  have hnext : impl.cache.tid + 1 = UInt64.ofNat (ns ++ [n]).length := by
    rw [h.tid, List.length_append, List.length_singleton, UInt64.ofNat_add]
    rfl
  refine ⟨?_, fun n' => ?_, ?_⟩
  · simp only [RocksDBImpl.createTable, hfree, KVStore.apply_cons, KVStore.apply_nil,
      KVStore.getElem?_put, hnext]
    rw [if_neg (segmentKey_ne_sequence _).symm, if_neg (tableKey_ne_sequence n).symm,
      if_pos trivial, if_neg (by simp)]
  · simp only [RocksDBImpl.createTable, hfree, KVStore.apply_cons, KVStore.apply_nil,
      KVStore.getElem?_put, tableKey_inj]
    rw [if_neg (tableKey_ne_segmentKey _ _), if_neg (tableKey_ne_sequence n'), h.table, h.tid]
    by_cases hn' : n' = n
    · subst hn'
      rw [if_pos rfl, if_pos (by simp), List.idxOf_append_of_notMem hn]
      simp
    · rw [if_neg hn']
      by_cases hmem : n' ∈ ns
      · rw [if_pos hmem, if_pos (by simp [hmem]), List.idxOf_append_of_mem hmem]
      · rw [if_neg hmem, if_neg (by simp [hmem, hn'])]
  · rw [RocksDBImpl.createTable, hfree]
    exact hnext

/-- As long as there is no table the record is the one `Init` has written. -/
theorem restart (h : Numbered impl []) (behind : Nat → UInt8) :
    Numbered (RocksDBImpl.init impl.db behind) [] := by
  have hseq : impl.db[tableSequenceKey]? = some (List.replicate 8 0) := h.sequence
  refine ⟨?_, fun n => ?_, ?_⟩
  · rw [RocksDBImpl.init, hseq]
    exact h.sequence
  · rw [RocksDBImpl.init, hseq]
    exact h.table n
  · rw [RocksDBImpl.init, hseq]
    exact readWord_zero behind

theorem distinctIds (h : Numbered impl ns) (hlen : ns.length ≤ 2 ^ 64) :
    DistinctIds impl.db := by
  intro n n' v hv hv'
  rw [h.table] at hv hv'
  split at hv <;> rename_i hn
  · split at hv' <;> rename_i hn'
    · rw [← hv'] at hv
      have hidx := congrArg UInt64.toNat (decimal_inj (Option.some_inj.mp hv))
      have hlt := List.idxOf_lt_length_of_mem hn
      have hlt' := List.idxOf_lt_length_of_mem hn'
      rw [UInt64.toNat_ofNat', UInt64.toNat_ofNat', Nat.mod_eq_of_lt (by omega),
        Nat.mod_eq_of_lt (by omega)] at hidx
      exact (List.idxOf_inj hn).mp hidx
    · cases hv'
  · cases hv

end Numbered

theorem run_concat (ops : List Op) (op : Op) : run (ops ++ [op]) = step (run ops) op :=
  List.foldl_concat ..

theorem names_createTable (ops : List Op) (n : Bytes) :
    names (ops ++ [.createTable n]) = names ops ++ [n] := by
  rw [names, List.filterMap_append]
  rfl

theorem names_restart (ops : List Op) (behind : Nat → UInt8) :
    names (ops ++ [.restart behind]) = names ops := by
  rw [names, List.filterMap_append]
  exact List.append_nil _

/-- The tables in the order in which they were created. -/
structure Creation (ops : List Op) (ns : List Bytes) : Prop where
  nodup : ns.Nodup
  mem_iff : ∀ n, n ∈ ns ↔ n ∈ names ops

theorem Creation.length_eq {ops : List Op} {ns : List Bytes} (h : Creation ops ns) :
    ns.length = tableCount ops := by
  rw [tableCount, ← List.toFinset_card_of_nodup h.nodup]
  exact congrArg Finset.card (Finset.ext fun n => by simp [h.mem_iff])

/-- **Tables are numbered in the order of their creation** in a run whose restarts come first. -/
theorem RestartsFirst.numbered {ops : List Op} (h : RestartsFirst ops) :
    ∃ ns, Creation ops ns ∧ Numbered (run ops) ns := by
  induction ops using List.reverseRecOn with
  | nil => exact ⟨[], ⟨List.nodup_nil, fun n => by simp [names]⟩, .init⟩
  | append_singleton ops op ih =>
    obtain ⟨ns, hcreated, hnum⟩ :=
      ih fun before behind hpre => h before behind (hpre.trans (List.prefix_append ops [op]))
    rw [run_concat]
    cases op with
    | createTable n =>
      by_cases hn : n ∈ ns
      · refine ⟨ns, ⟨hcreated.nodup, fun n' => ?_⟩, ?_⟩
        · rw [names_createTable, List.mem_append, List.mem_singleton, hcreated.mem_iff]
          refine ⟨.inl, fun h => h.elim id fun heq => ?_⟩
          rw [heq]
          exact (hcreated.mem_iff n).mp hn
        · rw [step, hnum.createTable_old hn]
          exact hnum
      · refine ⟨ns ++ [n], ⟨?_, fun n' => ?_⟩, hnum.createTable_new hn⟩
        · rw [← List.concat_eq_append]
          exact hcreated.nodup.concat hn
        · rw [names_createTable, List.mem_append, List.mem_append, hcreated.mem_iff]
    | restart behind =>
      have hnone : names ops = [] := h ops behind List.prefix_rfl
      obtain rfl : ns = [] := List.eq_nil_iff_forall_not_mem.mpr fun n hn => by
        simpa [hnone] using (hcreated.mem_iff n).mp hn
      refine ⟨[], ⟨hcreated.nodup, fun n => ?_⟩, hnum.restart behind⟩
      rw [names_restart]
      exact hcreated.mem_iff n

theorem tableCount_le (ops : List Op) : tableCount ops ≤ ops.length :=
  (List.toFinset_card_le _).trans (List.length_filterMap_le _ _)

theorem tableCount_mono {before ops : List Op} (h : before <+: ops) :
    tableCount before ≤ tableCount ops := by
  obtain ⟨rest, rfl⟩ := h
  refine Finset.card_le_card fun n hn => ?_
  rw [List.mem_toFinset] at hn ⊢
  rw [names, List.filterMap_append]
  exact List.mem_append_left _ hn

theorem RestartsFirst.initial {before ops : List Op} (h : RestartsFirst ops) (hpre : before <+: ops) :
    RestartsFirst before :=
  fun b behind hb => h b behind (hb.trans hpre)

/-- **When table ids survive restarts**: it is enough that every restart comes before the first
table and that there are at most `2 ^ 64` tables, and in a run that is not longer than a process can
be the first is needed, too.

`CreateTable` stores the next id as a decimal text and `Init` takes the first eight bytes of the
record for a number, so a restart behind a table goes on with another id than the one that was
stored. The bound on the run is there because a text of eight bytes or more might by chance be the
right number. -/
theorem idsSurvive_iff (ops : List Op) :
    (RestartsFirst ops ∧ tableCount ops ≤ 2 ^ 64 → IdsSurvive ops) ∧
      (ops.length < 2 ^ 61 → IdsSurvive ops → RestartsFirst ops) := by
  constructor
  · rintro ⟨hfirst, hcount⟩
    refine ⟨fun before behind hpre => ?_, fun before hpre => ?_⟩
    · have hnone := hfirst before behind hpre
      obtain ⟨ns, hcreated, hnum⟩ := (hfirst.initial hpre).numbered
      obtain rfl : ns = [] := List.eq_nil_iff_forall_not_mem.mpr fun n hn => by
        simpa [names_restart, hnone] using (hcreated.mem_iff n).mp hn
      rw [hnum.tid, tableCount, hnone]
      rfl
    · obtain ⟨ns, hcreated, hnum⟩ := (hfirst.initial hpre).numbered
      refine hnum.distinctIds ?_
      rw [hcreated.length_eq]
      exact (tableCount_mono hpre).trans hcount
  · intro hlen
    induction ops using List.reverseRecOn with
    | nil =>
      intro _ before behind hpre
      simpa using List.prefix_nil.mp hpre
    | append_singleton ops op ih =>
      intro hsurvive
      rw [List.length_append, List.length_singleton] at hlen
      have hpre : ops <+: ops ++ [op] := List.prefix_append ops [op]
      have hfirst : RestartsFirst ops := ih (by omega)
        ⟨fun b behind hb => hsurvive.1 b behind (hb.trans hpre),
          fun b hb => hsurvive.2 b (hb.trans hpre)⟩
      intro before behind hbefore
      rcases List.prefix_concat_iff.mp hbefore with heq | hinner
      · -- The last operation is a restart. It reads the text of the number of tables.
        obtain ⟨rfl, hop⟩ := List.append_inj' heq rfl
        cases hop
        obtain ⟨ns, hcreated, hnum⟩ := hfirst.numbered
        have hread := hsurvive.1 before behind List.prefix_rfl
        rw [← hcreated.length_eq, run_concat, step, RocksDBImpl.init, hnum.sequence] at hread
        have hsmall : ns.length < 2 ^ 61 := by
          have := tableCount_le before
          rw [hcreated.length_eq]
          omega
        by_contra hne
        have hns : ns ≠ [] := by
          rintro rfl
          exact hne (List.eq_nil_iff_forall_not_mem.mpr fun n hn => by
            simpa using (hcreated.mem_iff n).mpr hn)
        rw [if_neg hns] at hread
        have hword : (UInt64.ofNat ns.length).toNat = ns.length := by
          rw [UInt64.toNat_ofNat', Nat.mod_eq_of_lt (by omega)]
        refine readWord_decimal_ne (UInt64.ofNat ns.length) (by rwa [hword]) behind ?_
        exact UInt64.toNat_inj.mp (hread.trans hword.symm)
      · exact hfirst before behind hinner

/-- A run whose restarts come first. -/
theorem idsSurvive_two :
    IdsSurvive [.restart fun _ => 7, .createTable [97], .createTable [98]] := by
  refine (idsSurvive_iff _).1 ⟨fun before behind hpre => ?_, ?_⟩
  · rcases before with _ | ⟨first, _ | ⟨second, _ | ⟨third, rest⟩⟩⟩
    · rfl
    all_goals simp [List.cons_prefix_cons] at hpre
  · decide

/-- One table and one restart: the text `"1"` is read as 49, that is `'1'` and the zero behind
it. -/
theorem not_idsSurvive_one : ¬IdsSurvive [.createTable [97], .restart fun _ => 0] := by
  intro h
  have hread := h.1 [.createTable [97]] (fun _ => 0) List.prefix_rfl
  revert hread
  decide +kernel

end CxxLab.RocksdbService
