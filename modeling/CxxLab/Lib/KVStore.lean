import Std.Data.ExtTreeMap
import Mathlib.Logic.Basic
import Mathlib.Data.List.Perm.Subperm

/-!
# An ordered key-value store

What a program may rely on in an embedded ordered store: lookups, batches of writes that are
applied together and in order, and iteration over a range of keys in key order. Keys and values
are arbitrary; the order is the one the store was opened with.

A batch is computed before it is applied, from lookups in the store as it was. `getElem?_apply` and
its cases say what a key reads afterwards.
-/

set_option autoImplicit false

namespace CxxLab.Lib

open Std

/-- One operation of a write batch. -/
inductive Write (κ β : Type) where
  | put (k : κ) (v : β)
  | delete (k : κ)
  deriving DecidableEq

/-- The key an operation is about. -/
def Write.key {κ β : Type} : Write κ β → κ
  | .put k _ => k
  | .delete k => k

abbrev KVStore (κ β : Type) [Ord κ] := ExtTreeMap κ β

namespace KVStore

variable {κ β : Type} [Ord κ] [TransOrd κ]

def write (S : KVStore κ β) : Write κ β → KVStore κ β
  | .put k v => S.insert k v
  | .delete k => S.erase k

/-- Apply a batch. -/
def apply (S : KVStore κ β) (batch : List (Write κ β)) : KVStore κ β :=
  batch.foldl write S

/-- The records from `lower` on and before `upper`, in order. -/
def scan (S : KVStore κ β) (lower : κ) (upper : Option κ) : List (κ × β) :=
  S.toList.filter fun p =>
    (compare lower p.1).isLE && upper.all fun u => compare p.1 u == .lt

@[simp] theorem apply_nil (S : KVStore κ β) : S.apply [] = S := rfl

theorem apply_cons (S : KVStore κ β) (w : Write κ β) (batch : List (Write κ β)) :
    S.apply (w :: batch) = (S.write w).apply batch := rfl

theorem apply_append (S : KVStore κ β) (b₁ b₂ : List (Write κ β)) :
    S.apply (b₁ ++ b₂) = (S.apply b₁).apply b₂ := List.foldl_append

variable [LawfulEqOrd κ] [DecidableEq κ]

theorem getElem?_put (S : KVStore κ β) (k k' : κ) (v : β) :
    (S.write (.put k v))[k']? = if k' = k then some v else S[k']? := by
  rw [write, ExtTreeMap.getElem?_insert]
  simp only [Std.compare_eq_iff_eq, @eq_comm κ k k']

theorem getElem?_delete (S : KVStore κ β) (k k' : κ) :
    (S.write (.delete k))[k']? = if k' = k then none else S[k']? := by
  rw [write, ExtTreeMap.getElem?_erase]
  simp only [Std.compare_eq_iff_eq, @eq_comm κ k k']

theorem getElem?_write_of_ne {S : KVStore κ β} {w : Write κ β} {k : κ} (h : k ≠ w.key) :
    (S.write w)[k]? = S[k]? := by
  cases w with
  | put k' v => exact (getElem?_put S k' k v).trans (if_neg h)
  | delete k' => exact (getElem?_delete S k' k).trans (if_neg h)

theorem getElem?_apply_of_ne {batch : List (Write κ β)} {k : κ} (h : ∀ w ∈ batch, k ≠ w.key)
    (S : KVStore κ β) : (S.apply batch)[k]? = S[k]? := by
  induction batch generalizing S with
  | nil => rfl
  | cons w batch ih =>
    rw [apply_cons, ih (fun w' hw' => h w' (List.mem_cons_of_mem _ hw')),
      getElem?_write_of_ne (h w List.mem_cons_self)]

omit [DecidableEq κ] in
/-- Where every key a batch puts has a property, so has every new key of the store. -/
theorem mem_apply {batch : List (Write κ β)} {P : κ → Prop} {S : KVStore κ β}
    (hS : ∀ k ∈ S, P k) (hput : ∀ k v, Write.put k v ∈ batch → P k) :
    ∀ k ∈ S.apply batch, P k := by
  induction batch generalizing S with
  | nil => exact hS
  | cons w batch ih =>
    rw [apply_cons]
    refine ih (fun k hk => ?_) fun k v hmem => hput k v (List.mem_cons_of_mem _ hmem)
    cases w with
    | put k' v =>
      rcases ExtTreeMap.mem_insert.mp hk with heq | hk
      · cases Std.compare_eq_iff_eq.mp heq
        exact hput _ v List.mem_cons_self
      · exact hS k hk
    | delete k' => exact hS k (ExtTreeMap.mem_of_mem_erase hk)

omit [DecidableEq κ] in
theorem mem_scan {S : KVStore κ β} {lower : κ} {upper : Option κ} {k : κ} {v : β} :
    (k, v) ∈ S.scan lower upper ↔
      S[k]? = some v ∧ (compare lower k).isLE ∧ ∀ u, upper = some u → compare k u = .lt := by
  rw [scan, List.mem_filter, ExtTreeMap.mem_toList_iff_getElem?_eq_some, Bool.and_eq_true]
  cases upper <;> simp

omit [LawfulEqOrd κ] [DecidableEq κ] in
theorem scan_sorted (S : KVStore κ β) (lower : κ) (upper : Option κ) :
    (S.scan lower upper).Pairwise fun a b => compare a.1 b.1 = .lt :=
  ExtTreeMap.ordered_keys_toList.filter _

end KVStore

/-! ## Keys with a common beginning -/

section Lists

variable {α : Type} [Ord α] [TransOrd α] [LawfulEqOrd α]

omit [TransOrd α] in
theorem compare_append_left (p a b : List α) : compare (p ++ a) (p ++ b) = compare a b := by
  induction p with
  | nil => rfl
  | cons x p ih =>
    rw [List.cons_append, List.cons_append, List.compare_cons_cons, ReflOrd.compare_self,
      Ordering.eq_then, ih]

omit [TransOrd α] [LawfulEqOrd α] in
/-- Fronts of one length are compared first. -/
theorem compare_append_append {a b : List α} (h : a.length = b.length) (x y : List α) :
    compare (a ++ x) (b ++ y) = (compare a b).then (compare x y) := by
  induction a generalizing b with
  | nil =>
    cases List.length_eq_zero_iff.mp h.symm
    rfl
  | cons c a ih =>
    cases b with
    | nil => simp at h
    | cons d b =>
      rw [List.cons_append, List.cons_append, List.compare_cons_cons, List.compare_cons_cons,
        ih (Nat.succ.inj h), Ordering.then_assoc]

/-- **What follows a string does not matter** if it begins with something that is below everything
in the strings: a front that ends early is then the smaller one. -/
theorem compare_append_terminated {z : α} {x y : List α} : ∀ {a b : List α},
    (∀ c ∈ a, compare z c = .lt) → (∀ c ∈ b, compare z c = .lt) →
    compare (a ++ z :: x) (b ++ z :: y) = (compare a b).then (compare x y) := by
  intro a
  induction a with
  | nil =>
    intro b _ hb
    cases b with
    | nil => simp [List.compare_cons_cons, ReflOrd.compare_self]
    | cons d b =>
      rw [List.nil_append, List.cons_append, List.compare_cons_cons, hb d List.mem_cons_self]
      rfl
  | cons c a ih =>
    intro b ha hb
    cases b with
    | nil =>
      have hswap : compare c z = (compare z c).swap := OrientedCmp.eq_swap
      have hgt : compare c z = .gt := by
        rw [hswap, ha c List.mem_cons_self]
        rfl
      rw [List.cons_append, List.nil_append, List.compare_cons_cons, hgt]
      rfl
    | cons d b =>
      rw [List.cons_append, List.cons_append, List.compare_cons_cons, List.compare_cons_cons,
        ih (fun e he => ha e (List.mem_cons_of_mem _ he)) fun e he => hb e (List.mem_cons_of_mem _ he),
        Ordering.then_assoc]

/-- What lies between two strings that begin alike begins as they do. -/
theorem isPrefix_of_between {p a b : List α} : ∀ {k : List α},
    (compare (p ++ a) k).isLE → compare k (p ++ b) = .lt → p <+: k := by
  induction p with
  | nil => intro k _ _; exact List.nil_prefix
  | cons x p ih =>
    intro k hlow hhigh
    cases k with
    | nil => simp at hlow
    | cons y k =>
      rw [List.cons_append, List.compare_cons_cons] at hlow hhigh
      have hswap : compare y x = (compare x y).swap := OrientedCmp.eq_swap
      rw [hswap] at hhigh
      cases hxy : compare x y with
      | lt => simp [hxy] at hhigh
      | gt => simp [hxy] at hlow
      | eq =>
        rw [hxy] at hlow hhigh
        cases LawfulEqCmp.eq_of_compare hxy
        exact List.cons_prefix_cons.mpr ⟨rfl, ih hlow hhigh⟩

/-- **A list in order that is no longer than a strictly ascending one of its elements** is that
list. -/
theorem eq_of_ascending {xs ys : List α} (hx : xs.Pairwise fun a b => (compare a b).isLE = true)
    (hy : ys.Pairwise fun a b => compare a b = .lt) (hsubset : ys ⊆ xs)
    (hlen : xs.length ≤ ys.length) : xs = ys := by
  have hnodup : ys.Nodup := hy.imp fun {a b} hlt heq => by
    rw [heq, Std.compare_self] at hlt
    cases hlt
  have hperm := ((List.subperm_of_subset hnodup hsubset).perm_of_length_le hlen).symm
  have hle := hy.imp fun {a b} (hlt : compare a b = .lt) => Ordering.isLE_of_eq_lt hlt
  refine hperm.eq_of_pairwise (fun a b _ _ hab hba => ?_) hx hle
  exact LawfulEqCmp.eq_of_compare (OrientedCmp.isLE_antisymm hab hba)

/-- Records in the order of their keys are determined by what they are. -/
theorem eq_of_keys_ascending {β : Type} {xs ys : List (α × β)}
    (hx : xs.Pairwise fun a b => compare a.1 b.1 = .lt)
    (hy : ys.Pairwise fun a b => compare a.1 b.1 = .lt) (hmem : ∀ a, a ∈ xs ↔ a ∈ ys) :
    xs = ys := by
  have hnodup : ∀ {zs : List (α × β)}, (zs.Pairwise fun a b => compare a.1 b.1 = .lt) → zs.Nodup :=
    fun hz => hz.imp fun {a b} hlt heq => by
      rw [heq, Std.compare_self] at hlt
      cases hlt
  have hperm := (List.perm_ext_iff_of_nodup (hnodup hx) (hnodup hy)).mpr hmem
  refine hperm.eq_of_pairwise (fun a b _ _ hab hba => ?_) hx hy
  have hnot : compare b.1 a.1 ≠ .lt := OrientedCmp.not_lt_of_lt hab
  exact absurd hba hnot

end Lists

/-- Taking from the front is filtering, where what comes before something good is good. -/
theorem takeWhile_eq_filter {α : Type} {P : α → Bool} {l : List α}
    (h : l.Pairwise fun a b => P b = true → P a = true) : l.takeWhile P = l.filter P := by
  induction l with
  | nil => rfl
  | cons a l ih =>
    obtain ⟨hfirst, hrest⟩ := List.pairwise_cons.mp h
    by_cases ha : P a = true
    · rw [List.takeWhile_cons_of_pos ha, List.filter_cons_of_pos ha, ih hrest]
    · rw [List.takeWhile_cons_of_neg ha, List.filter_cons_of_neg ha]
      refine (List.filter_eq_nil_iff.mpr fun b hb hPb => ?_).symm
      exact ha (hfirst b hb hPb)

/-! ## Maps -/

section Maps

variable {κ β : Type} [Ord κ] [TransOrd κ] [LawfulEqOrd κ] [DecidableEq κ]

theorem getElem?_insert_eq (m : ExtTreeMap κ β) (k k' : κ) (v : β) :
    (m.insert k v)[k']? = if k' = k then some v else m[k']? := KVStore.getElem?_put m k k' v

theorem getElem?_erase_eq (m : ExtTreeMap κ β) (k k' : κ) :
    (m.erase k)[k']? = if k' = k then none else m[k']? := KVStore.getElem?_delete m k k'

theorem getElem?_of_insert {m : ExtTreeMap κ β} {k k' : κ} {v v' : β}
    (h : (m.insert k v)[k']? = some v') : k' = k ∧ v' = v ∨ m[k']? = some v' := by
  rw [getElem?_insert_eq] at h
  split at h
  · rename_i heq
    exact .inl ⟨heq, (Option.some_inj.mp h).symm⟩
  · exact .inr h

theorem getElem?_of_erase {m : ExtTreeMap κ β} {k k' : κ} {v : β}
    (h : (m.erase k)[k']? = some v) : k' ≠ k ∧ m[k']? = some v := by
  rw [getElem?_erase_eq] at h
  split at h
  · cases h
  · rename_i hne
    exact ⟨hne, h⟩

omit [LawfulEqOrd κ] [DecidableEq κ] in
theorem mem_iff_exists {m : ExtTreeMap κ β} {k : κ} : k ∈ m ↔ ∃ v, m[k]? = some v := by
  rw [ExtTreeMap.mem_iff_isSome_getElem?, Option.isSome_iff_exists]

omit [LawfulEqOrd κ] [DecidableEq κ] in
theorem not_mem_iff {m : ExtTreeMap κ β} {k : κ} : k ∉ m ↔ m[k]? = none := by
  rw [ExtTreeMap.mem_iff_isSome_getElem?, Option.not_isSome_iff_eq_none]

omit [LawfulEqOrd κ] [DecidableEq κ] in
theorem getD_eq {m : ExtTreeMap κ β} {k : κ} {v : β} (h : m[k]? = some v) (w : β) :
    m.getD k w = v := by
  rw [ExtTreeMap.getD_eq_getD_getElem?, h, Option.getD_some]

theorem insert_eq_self {m : ExtTreeMap κ β} {k : κ} {v : β} (h : m[k]? = some v) :
    m.insert k v = m := by
  refine ExtTreeMap.ext_getElem? fun k' => ?_
  rw [getElem?_insert_eq]
  split
  · rename_i heq; rw [heq, h]
  · rfl

omit [DecidableEq κ] in
/-- The keys of a map are the ascending list of them. -/
theorem keys_eq_of_ascending {m : ExtTreeMap κ β} {ks : List κ}
    (hks : ks.Pairwise fun a b => compare a b = .lt) (hmem : ∀ k, k ∈ m ↔ k ∈ ks) : m.keys = ks := by
  have hlt : ∀ {l : List κ}, (l.Pairwise fun a b => compare a b = .lt) → l.Nodup := fun hl =>
    hl.imp fun {a b} hab heq => by
      rw [heq, Std.compare_self] at hab
      cases hab
  have hordered : m.keys.Pairwise fun a b => compare a b = .lt := ExtTreeMap.ordered_keys
  have hperm := (List.perm_ext_iff_of_nodup (hlt hordered) (hlt hks)).mpr fun k => by
    rw [ExtTreeMap.mem_keys, hmem]
  refine hperm.eq_of_pairwise (fun a b _ _ hab hba => ?_) hordered hks
  have hnot : compare b a ≠ .lt := OrientedCmp.not_lt_of_lt hab
  exact absurd hba hnot

omit [DecidableEq κ] in
/-- A key above all others comes last. -/
theorem keys_insert_last {m : ExtTreeMap κ β} {k : κ} (v : β) (hk : ∀ k' ∈ m, compare k' k = .lt) :
    (m.insert k v).keys = m.keys ++ [k] := by
  refine keys_eq_of_ascending (List.pairwise_append.mpr ⟨ExtTreeMap.ordered_keys, by simp, ?_⟩) ?_
  · intro a ha b hb
    rw [List.mem_singleton.mp hb]
    exact hk a (ExtTreeMap.mem_keys.mp ha)
  · intro k'
    rw [ExtTreeMap.mem_insert, List.mem_append, List.mem_singleton, ExtTreeMap.mem_keys,
      Std.compare_eq_iff_eq, or_comm, eq_comm]

omit [DecidableEq κ] in
/-- The first key goes. -/
theorem keys_erase_head {m : ExtTreeMap κ β} {k : κ} {ks : List κ} (hkeys : m.keys = k :: ks) :
    (m.erase k).keys = ks := by
  have hordered : m.keys.Pairwise fun a b => compare a b = .lt := ExtTreeMap.ordered_keys
  rw [hkeys] at hordered
  obtain ⟨hfirst, hrest⟩ := List.pairwise_cons.mp hordered
  refine keys_eq_of_ascending hrest fun k' => ?_
  rw [ExtTreeMap.mem_erase, ← ExtTreeMap.mem_keys (t := m), hkeys, List.mem_cons]
  constructor
  · rintro ⟨hne, rfl | hmem⟩
    · exact absurd Std.compare_self hne
    · exact hmem
  · intro hmem
    refine ⟨?_, .inr hmem⟩
    rw [hfirst k' hmem]
    decide

omit [DecidableEq κ] in
theorem size_eq_of_keys {γ : Type} {m : ExtTreeMap κ β} {m' : ExtTreeMap κ γ}
    (h : ∀ k, k ∈ m ↔ k ∈ m') : m.size = m'.size := by
  rw [← ExtTreeMap.length_keys, ← ExtTreeMap.length_keys]
  refine List.Perm.length_eq ((List.perm_ext_iff_of_nodup ExtTreeMap.nodup_keys
    ExtTreeMap.nodup_keys).mpr fun k => ?_)
  rw [ExtTreeMap.mem_keys, ExtTreeMap.mem_keys, h]

omit [DecidableEq κ] in
/-- A map that is contained in one of its size is that map. -/
theorem eq_of_entries_subset {m m' : ExtTreeMap κ β}
    (h : ∀ (k : κ) (v : β), m[k]? = some v → m'[k]? = some v) (hsize : m'.size ≤ m.size) : m = m' := by
  have hsub : m.keys ⊆ m'.keys := by
    intro k hk
    obtain ⟨v, hv⟩ := mem_iff_exists.mp (ExtTreeMap.mem_keys.mp hk)
    exact ExtTreeMap.mem_keys.mpr (mem_iff_exists.mpr ⟨v, h k v hv⟩)
  have hperm : m.keys.Perm m'.keys :=
    (List.subperm_of_subset ExtTreeMap.nodup_keys hsub).perm_of_length_le (by
      rw [ExtTreeMap.length_keys, ExtTreeMap.length_keys]
      exact hsize)
  refine ExtTreeMap.ext_getElem? fun k => ?_
  cases hk : m[k]? with
  | some v => exact (h k v hk).symm
  | none =>
    refine (ExtTreeMap.getElem?_eq_none fun hmem => ?_).symm
    have hin := ExtTreeMap.mem_keys.mp (hperm.mem_iff.mpr (ExtTreeMap.mem_keys.mpr hmem))
    obtain ⟨v, hv⟩ := mem_iff_exists.mp hin
    rw [hk] at hv
    cases hv

end Maps

end CxxLab.Lib
