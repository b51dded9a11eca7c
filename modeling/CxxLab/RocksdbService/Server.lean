import CxxLab.RocksdbService.Tables

/-!
# `rocksdb_service/server.cpp` — what a client is told

`ServiceImpl::CreateTable` has the table created and answers with its name and an id. The id is not
the one the store has given: it is that of a counter of the process, which goes up with every
request, also with one for a table that is there already. From such a request on the two counters
are apart (`responses_iff`).
-/

set_option autoImplicit false

namespace CxxLab.RocksdbService

open Std CxxLab.Lib

/-- The table in a `CreateTableResponse`. -/
structure CreateTableResponse where
  id : Int64
  name : Bytes

/-- `ServiceImpl`, and the static `ID`. It is an `int`, and past the end of those the model wraps
around. -/
structure ServiceImpl where
  impl : RocksDBImpl
  id : Int32

namespace ServiceImpl

/-- A new process on a store. -/
def new (db : Store) (behind : Nat → UInt8) : ServiceImpl := ⟨RocksDBImpl.init db behind, 0⟩

/-- `ServiceImpl::CreateTable`. The status of the store is dropped. -/
def createTable (s : ServiceImpl) (name : Bytes) : CreateTableResponse × ServiceImpl :=
  (⟨s.id.toInt64, name⟩, ⟨s.impl.createTable name, s.id + 1⟩)

/-- A process that has been asked for these tables, on a store that was empty. -/
def serve (names : List Bytes) : ServiceImpl :=
  names.foldl (fun s name => (s.createTable name).2) (new ∅ fun _ => 0)

/-- The id the store has for a name. -/
def Stored (db : Store) (name : Bytes) (id : Int) : Prop :=
  ∃ tid : UInt64, db[tableKey name]? = some (decimal tid) ∧ (tid.toNat : Int) = id

/-- **Every response has the id of its table**, from the time it is given. -/
def ResponsesStored (names : List Bytes) : Prop :=
  ∀ before name after, before ++ [name] ++ after <+: names →
    Stored (serve (before ++ [name] ++ after)).impl.db ((serve before).createTable name).1.name
      ((serve before).createTable name).1.id.toInt

theorem serve_concat (names : List Bytes) (name : Bytes) :
    serve (names ++ [name]) = ((serve names).createTable name).2 := List.foldl_concat ..

theorem id_serve (names : List Bytes) : (serve names).id = Int32.ofNat names.length := by
  induction names using List.reverseRecOn with
  | nil => rfl
  | append_singleton names name ih =>
    rw [serve_concat, List.length_append, List.length_singleton, Int32.ofNat_add, ← ih]
    rfl

/-- The tables are numbered as they were asked for, if no name was asked for twice. -/
theorem numbered_serve {names : List Bytes} (h : names.Nodup) : Numbered (serve names).impl names := by
  induction names using List.reverseRecOn with
  | nil => exact .init
  | append_singleton names name ih =>
    rw [← List.concat_eq_append, List.nodup_concat] at h
    rw [serve_concat]
    exact (ih h.2).createTable_new h.1

theorem id_response (before : List Bytes) (name : Bytes) :
    ((serve before).createTable name).1.id.toInt = (before.length : Int).bmod (2 ^ 32) := by
  rw [createTable, Int32.toInt_toInt64, id_serve, Int32.toInt_ofNat']
  rfl

theorem Stored.nonneg {db : Store} {name : Bytes} {id : Int} (h : Stored db name id) : 0 ≤ id := by
  obtain ⟨tid, -, rfl⟩ := h
  exact Int.natCast_nonneg _

/-- The name that was asked for at some place has its number. -/
theorem stored_of_numbered {impl : RocksDBImpl} {before after : List Bytes} {name : Bytes}
    (h : Numbered impl (before ++ [name] ++ after)) (hnot : name ∉ before)
    (hlen : before.length < 2 ^ 64) : Stored impl.db name before.length := by
  refine ⟨UInt64.ofNat before.length, ?_, ?_⟩
  · rw [h.table, if_pos (by simp), List.append_assoc, List.idxOf_append_of_notMem hnot]
    simp
  · rw [UInt64.toNat_ofNat_of_lt' hlen]

/-- A name that is asked for again is answered with a number that is not its own. -/
theorem nodup_of_responses {names : List Bytes} (hlen : names.length ≤ 2 ^ 31)
    (h : ResponsesStored names) : names.Nodup := by
  induction names using List.reverseRecOn with
  | nil => exact List.nodup_nil
  | append_singleton names name ih =>
    rw [List.length_append, List.length_singleton] at hlen
    have hnodup : names.Nodup := ih (by omega) fun before n after hpre =>
      h before n after (hpre.trans (List.prefix_append names [name]))
    have hnum := numbered_serve hnodup
    rw [← List.concat_eq_append, List.nodup_concat]
    refine ⟨fun hmem => ?_, hnodup⟩
    obtain ⟨tid, hread, hid⟩ := h names name [] (by rw [List.append_nil])
    have himpl : (serve (names ++ [name])).impl = (serve names).impl := by
      rw [serve_concat]
      exact hnum.createTable_old hmem
    rw [id_response, Int.bmod_eq_of_le (by omega) (by omega)] at hid
    rw [List.append_nil, himpl] at hread
    have hstored := (hnum.table name).symm.trans hread
    rw [if_pos hmem, Option.some_inj] at hstored
    -- The number stored is that of an earlier request.
    have hidx := List.idxOf_lt_length_of_mem hmem
    have htid := congrArg UInt64.toNat (decimal_inj hstored)
    have hsmall : names.idxOf name < 2 ^ 64 := by omega
    rw [UInt64.toNat_ofNat_of_lt' hsmall] at htid
    omega

/-- **When the responses are right**: exactly where no name is asked for twice, as long as the
counter lasts.

The id of a response is that of a counter of the server, which goes up with every request. The store
has a counter of its own, which does not for a table that is there already, and from such a request
on the two are apart. The counter of the server is an `int`, so after 2^31 requests it is
negative. -/
theorem responses_iff (names : List Bytes) :
    ResponsesStored names ↔ names.Nodup ∧ names.length ≤ 2 ^ 31 := by
  constructor
  · intro h
    have hlen : names.length ≤ 2 ^ 31 := by
      by_contra hnot
      have hlt : 2 ^ 31 < names.length := Nat.lt_of_not_le hnot
      have hpre : names.take (2 ^ 31) ++ [names[2 ^ 31]] ++ [] <+: names := by
        rw [List.append_nil, List.take_append_getElem]
        exact List.take_prefix _ _
      -- The answer to this request is negative: the counter has wrapped.
      have hneg := (h _ _ _ hpre).nonneg
      rw [id_response, List.length_take, Nat.min_eq_left (Nat.le_of_lt hlt)] at hneg
      exact absurd hneg (by decide)
    exact ⟨nodup_of_responses hlen h, hlen⟩
  · rintro ⟨hnodup, hlen⟩ before name after hpre
    have hin := hnodup.sublist hpre.sublist
    have hle := hpre.length_le
    rw [List.length_append, List.length_append, List.length_singleton] at hle
    have hnot : name ∉ before := by
      intro hmem
      rw [List.append_assoc] at hin
      exact List.disjoint_of_nodup_append hin hmem (by simp)
    rw [id_response, Int.bmod_eq_of_le (by omega) (by omega)]
    exact stored_of_numbered (numbered_serve hin) hnot (by omega)

/-- Asked twice for one table, the process says it is 0 and then that it is 1. -/
theorem not_responsesStored_twice : ¬ ResponsesStored [[97], [97]] := by
  intro h
  obtain ⟨tid, hread, hid⟩ := h [[97]] [97] [] List.prefix_rfl
  have hdb : (serve [[97], [97]]).impl.db[tableKey [97]]? = some (decimal 0) := by decide +kernel
  rw [show (((serve [[97]]).createTable [97]).1.id.toInt) = 1 by decide +kernel] at hid
  have hzero := decimal_inj (Option.some_inj.mp (hdb.symm.trans hread))
  rw [← hzero] at hid
  cases hid

end ServiceImpl

end CxxLab.RocksdbService
