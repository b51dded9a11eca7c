import CxxLab.RocksdbLab.Keys
import Mathlib.Data.Set.Defs

/-!
# `MyComparator`

An order of keys that was written to be faster than the byte-wise one: table names are compared as
bytes, and all other keys eight bytes at a time, as machine words. How many words there are is
taken from the first key alone, and what is behind the last word does not count.

So two keys of a family can be equal though they differ — the values of two fields of one document
are (`clash_fieldValue_iff`) — and where the second key is the shorter one the comparison reads past its end. Between keys
for which neither happens `MyComparator` is a linear order (`comparator_valid_iff`).

Words are little-endian, and a comparison is given by its sign.
-/

set_option autoImplicit false

namespace CxxLab.RocksdbLab

open Std CxxLab.Lib

/-! ## The comparison -/

/-- `*(uint64_t*)data`. There is no result where that is past the end. -/
def machineWord (data : Bytes) : Option UInt64 :=
  if 8 ≤ data.length then some (UInt64.ofNat (BigEndian.ofBytes (data.take 8).reverse)) else none

/-- The loop over so many words. -/
def compareWords : Nat → Bytes → Bytes → Option Ordering
  | 0, _, _ => some .eq
  | words + 1, a, b => do
    let x ← machineWord a
    let y ← machineWord b
    if x = y then compareWords words (a.drop 8) (b.drop 8)
    else if y < x then some .gt
    else some .lt

/-- `MyComparator::Compare`. -/
def myCompare (a b : Bytes) : Option Ordering :=
  if a.length < 3 ∨ b.length < 3 then none
  else
    match compare (a.take 3) (b.take 3) with
    | .lt => some .lt
    | .gt => some .gt
    | .eq =>
      if a.take 3 = tablePrefix then some (compare a b)
      else compareWords ((a.length - 3) / 8) (a.drop 3) (b.drop 3)

/-- **What a comparator has to be**, for these keys: it reads no further than they go, and is a
linear order.

This is what RocksDB asks of the `Compare` it is given. Keys are equal only if their bytes are, an
exchange of the keys exchanges the result, and two comparisons make a third. A result `none` is a
read behind the end of a key. -/
structure ComparatorValid (K : Set Key) : Prop where
  inBounds : ∀ k ∈ K, ∀ k' ∈ K, ∃ o, myCompare k.encode k'.encode = some o
  eq_iff : ∀ k ∈ K, ∀ k' ∈ K, myCompare k.encode k'.encode = some .eq ↔ k.encode = k'.encode
  antisymm : ∀ k ∈ K, ∀ k' ∈ K,
    myCompare k'.encode k.encode = (myCompare k.encode k'.encode).map Ordering.swap
  trans : ∀ k ∈ K, ∀ k' ∈ K, ∀ k'' ∈ K, ∀ o o', myCompare k.encode k'.encode = some o →
    myCompare k'.encode k''.encode = some o' → o.isLE = true → o'.isLE = true →
    ∃ o'', myCompare k.encode k''.encode = some o'' ∧ o''.isLE = true

/-! ## Words -/

/-- The first word of some bytes. -/
def firstWord (data : Bytes) : UInt64 := UInt64.ofNat (BigEndian.ofBytes (data.take 8).reverse)

/-- The first words of some bytes. -/
def wordsFrom : Nat → Bytes → List UInt64
  | 0, _ => []
  | words + 1, data => firstWord data :: wordsFrom words (data.drop 8)

/-- The complete words of a key behind its prefix. -/
def wordsOf (key : Bytes) : List UInt64 := wordsFrom ((key.length - 3) / 8) (key.drop 3)

/-- What the loop does to the words of the two keys. -/
def compareLists : List UInt64 → List UInt64 → Option Ordering
  | [], _ => some .eq
  | _ :: _, [] => none
  | x :: xs, y :: ys =>
    if x = y then compareLists xs ys else if y < x then some .gt else some .lt

theorem machineWord_eq {data : Bytes} (h : 8 ≤ data.length) :
    machineWord data = some (firstWord data) := if_pos h

theorem compareWords_eq : ∀ (words : Nat) {a b : Bytes}, 8 * words ≤ a.length →
    compareWords words a b = compareLists (wordsFrom words a) (wordsFrom (b.length / 8) b) := by
  intro words
  induction words with
  | zero => intro a b _; rfl
  | succ words ih =>
    intro a b ha
    rw [compareWords, machineWord_eq (by omega), Option.bind_eq_bind, Option.bind_some]
    by_cases hb : 8 ≤ b.length
    · have hrest := ih (a := a.drop 8) (b := b.drop 8) (by rw [List.length_drop]; omega)
      rw [List.length_drop] at hrest
      obtain ⟨n, hn⟩ : ∃ n, b.length / 8 = n + 1 := ⟨b.length / 8 - 1, by omega⟩
      rw [show (b.length - 8) / 8 = n by omega] at hrest
      rw [machineWord_eq hb, Option.bind_some, hrest, hn, wordsFrom, wordsFrom,
        compareLists]
    -- The second key has no word left, and the next one is past its end.
    · rw [show b.length / 8 = 0 by omega, machineWord, if_neg hb]
      rfl

/-- A key whose words come first in another is taken for equal to it. -/
theorem compareLists_of_prefix : ∀ {xs ys : List UInt64}, xs <+: ys →
    compareLists xs ys = some .eq := by
  intro xs
  induction xs with
  | nil => intro ys _; rfl
  | cons x xs ih =>
    intro ys hpre
    obtain ⟨rest, rfl⟩ := hpre
    rw [List.cons_append, compareLists, if_pos rfl]
    exact ih (List.prefix_append xs rest)

/-- Where neither of two lists of words comes first in the other, they are compared as lists. -/
theorem compareLists_eq : ∀ {xs ys : List UInt64}, ¬ xs <+: ys → ¬ ys <+: xs →
    compareLists xs ys = some (compare xs ys) := by
  intro xs
  induction xs with
  | nil => intro ys h _; exact absurd List.nil_prefix h
  | cons x xs ih =>
    intro ys hx hy
    cases ys with
    | nil => exact absurd List.nil_prefix hy
    | cons y ys =>
      rw [compareLists, List.compare_cons_cons]
      by_cases heq : x = y
      · subst heq
        rw [List.cons_prefix_cons, not_and] at hx hy
        rw [if_pos rfl, ih (hx rfl) (hy rfl), Std.compare_self]
        rfl
      · rw [if_neg heq]
        rcases UInt64.lt_or_lt_of_ne heq with hlt | hgt
        · rw [if_neg (UInt64.lt_asymm hlt), Std.compare_eq_lt.mpr hlt]
          rfl
        · rw [if_pos hgt, Std.compare_eq_gt.mpr hgt]
          rfl

/-! ## The order of the keys -/

/-- Two keys that `MyComparator` does not tell apart, at least from one side: they are of one family
and not table names, and the complete words of one come first in the other. -/
def Clash (k k' : Key) : Prop :=
  k ≠ k' ∧ k.family = k'.family ∧ k.family ≠ tablePrefix ∧
    (wordsOf k.encode <+: wordsOf k'.encode ∨ wordsOf k'.encode <+: wordsOf k.encode)

/-- The order of keys that do not clash: by prefix, then table names as bytes and others as
words. -/
def keyOrder : Bytes → Bytes → Ordering :=
  compareLex (compareOn fun a : Bytes => a.take 3)
    (compareLex (compareOn fun a => if a.take 3 = tablePrefix then a else [])
      (compareOn fun a => if a.take 3 = tablePrefix then [] else wordsOf a))

theorem three_le_length_encode (k : Key) : 3 ≤ k.encode.length := by
  have htake := congrArg List.length k.take_encode
  have hfamily : k.family.length = 3 := by cases k <;> rfl
  rw [List.length_take, hfamily] at htake
  omega

/-- What `Compare` does within one family other than that of the table names. -/
theorem myCompare_of_family {k k' : Key} (hfamily : k.family = k'.family)
    (hne : k.family ≠ tablePrefix) :
    myCompare k.encode k'.encode = compareLists (wordsOf k.encode) (wordsOf k'.encode) := by
  have hk := three_le_length_encode k
  have hk' := three_le_length_encode k'
  rw [myCompare, if_neg (by omega), k.take_encode, k'.take_encode, ← hfamily, Std.compare_self]
  simp only
  rw [if_neg hne, compareWords_eq _ (by rw [List.length_drop]; omega), List.length_drop, wordsOf,
    wordsOf]

instance : TransCmp keyOrder := by
  delta keyOrder
  infer_instance

theorem keyOrder_eq (a b : Bytes) : keyOrder a b =
    (compare (a.take 3) (b.take 3)).then
      ((compare (if a.take 3 = tablePrefix then a else []) (if b.take 3 = tablePrefix then b else [])).then
        (compare (if a.take 3 = tablePrefix then [] else wordsOf a)
          (if b.take 3 = tablePrefix then [] else wordsOf b))) := rfl

theorem not_prefix_of_not_clash {k k' : Key} (h : ¬ Clash k k') (hne : k ≠ k')
    (hfamily : k.family = k'.family) (htable : k.family ≠ tablePrefix) :
    ¬ wordsOf k.encode <+: wordsOf k'.encode ∧ ¬ wordsOf k'.encode <+: wordsOf k.encode :=
  ⟨fun hpre => h ⟨hne, hfamily, htable, .inl hpre⟩, fun hpre => h ⟨hne, hfamily, htable, .inr hpre⟩⟩

/-- **Keys that do not clash are compared by `keyOrder`.** -/
theorem myCompare_eq {k k' : Key} (h : ¬ Clash k k') :
    myCompare k.encode k'.encode = some (keyOrder k.encode k'.encode) := by
  have hk := three_le_length_encode k
  have hk' := three_le_length_encode k'
  rw [keyOrder_eq, k.take_encode, k'.take_encode]
  by_cases hfamily : k.family = k'.family
  · by_cases htable : k.family = tablePrefix
    · rw [myCompare, if_neg (by omega), k.take_encode, k'.take_encode, ← hfamily, Std.compare_self]
      simp only [if_pos htable, Std.compare_self, Ordering.eq_then, Ordering.then_eq]
    · rw [myCompare_of_family hfamily htable, ← hfamily, Std.compare_self]
      simp only [if_neg htable, Std.compare_self, Ordering.eq_then]
      -- A key does not clash with itself, though its words come first in it.
      by_cases hsame : k = k'
      · rw [hsame, compareLists_of_prefix (List.prefix_refl _), Std.compare_self]
      · obtain ⟨hx, hy⟩ := not_prefix_of_not_clash h hsame hfamily htable
        exact compareLists_eq hx hy
  · rw [myCompare, if_neg (by omega), k.take_encode, k'.take_encode]
    cases hcmp : compare k.family k'.family with
    | lt => rfl
    | gt => rfl
    | eq => exact absurd (LawfulEqCmp.eq_of_compare hcmp) hfamily

/-- Only equal keys are equal in it. -/
theorem keyOrder_eq_eq {k k' : Key} (h : ¬ Clash k k') (heq : keyOrder k.encode k'.encode = .eq) :
    k = k' := by
  rw [keyOrder_eq, k.take_encode, k'.take_encode, Ordering.then_eq_eq, Ordering.then_eq_eq] at heq
  obtain ⟨hfamily, htables, hwords⟩ := heq
  have hfamily := LawfulEqCmp.eq_of_compare hfamily
  by_contra hne
  by_cases htable : k.family = tablePrefix
  · rw [← hfamily, if_pos htable, if_pos htable] at htables
    exact hne (Key.encode_inj.mp (LawfulEqCmp.eq_of_compare htables))
  · rw [← hfamily, if_neg htable, if_neg htable] at hwords
    have hsame := LawfulEqCmp.eq_of_compare hwords
    exact (not_prefix_of_not_clash h hne hfamily htable).1 (hsame ▸ List.prefix_refl _)

/-- **When `MyComparator` is a comparator** for a set of keys: exactly when no two of them clash.

Two keys clash if they are of one family and the words of one are those that the other begins with.
Then the comparison takes them for equal, or reads past the end of the shorter one. Without clashes
it is `keyOrder`, a lexicographic order of words, and what is asked of a comparator holds of
that. -/
theorem comparator_valid_iff (K : Set Key) :
    ComparatorValid K ↔ ∀ k ∈ K, ∀ k' ∈ K, ¬ Clash k k' := by
  constructor
  · rintro h k hk k' hk' ⟨hne, hfamily, htable, hpre⟩
    have hwrong : ∀ a b : Key, a ∈ K → b ∈ K → a ≠ b → a.family = b.family →
        a.family ≠ tablePrefix → ¬ wordsOf a.encode <+: wordsOf b.encode := by
      intro a b ha hb hab hfam hnot hpre
      refine hab (Key.encode_inj.mp ((h.eq_iff a ha b hb).mp ?_))
      rw [myCompare_of_family hfam hnot, compareLists_of_prefix hpre]
    rcases hpre with hpre | hpre
    · exact hwrong k k' hk hk' hne hfamily htable hpre
    · exact hwrong k' k hk' hk (Ne.symm hne) hfamily.symm (hfamily ▸ htable) hpre
  · intro h
    -- Without clashes it is `keyOrder`, which has the laws from the orders it is made of.
    have hcmp : ∀ k ∈ K, ∀ k' ∈ K,
        myCompare k.encode k'.encode = some (keyOrder k.encode k'.encode) :=
      fun k hk k' hk' => myCompare_eq (h k hk k' hk')
    refine ⟨fun k hk k' hk' => ⟨_, hcmp k hk k' hk'⟩, fun k hk k' hk' => ?_, fun k hk k' hk' => ?_,
      fun k hk k' hk' k'' hk'' o o' ho ho' hle hle' => ⟨_, hcmp k hk k'' hk'', ?_⟩⟩
    · rw [hcmp k hk k' hk', Option.some_inj, Key.encode_inj]
      constructor
      · exact keyOrder_eq_eq (h k hk k' hk')
      · rintro rfl
        exact ReflCmp.compare_self
    · rw [hcmp k hk k' hk', hcmp k' hk' k hk, Option.map_some, Option.some_inj]
      exact OrientedCmp.eq_swap
    · rw [hcmp k hk k' hk', Option.some_inj] at ho
      rw [hcmp k' hk' k'' hk'', Option.some_inj] at ho'
      rw [← ho] at hle
      rw [← ho'] at hle'
      exact TransCmp.isLE_trans hle hle'

/-! ## Keys that clash -/

theorem firstWord_serialize (x : UInt64) (rest : Bytes) :
    firstWord (serialize x ++ rest) = firstWord (serialize x) := by
  rw [firstWord, firstWord, List.take_left' (length_serialize x), List.take_of_length_le (by simp)]

/-- A machine word is not the number that was serialized, but no two numbers are in one word. -/
theorem firstWord_inj {x y : UInt64} : firstWord (serialize x) = firstWord (serialize y) ↔ x = y := by
  refine ⟨fun h => serialize_inj.mp ?_, fun h => by rw [h]⟩
  rw [firstWord, firstWord, List.take_of_length_le (by simp), List.take_of_length_le (by simp)] at h
  have hlt : ∀ z : UInt64, BigEndian.ofBytes (serialize z).reverse < 2 ^ 64 := by
    intro z
    have := BigEndian.ofBytes_lt (serialize z).reverse
    rwa [List.length_reverse, length_serialize] at this
  have hnat := congrArg UInt64.toNat h
  rw [UInt64.toNat_ofNat_of_lt' (hlt x), UInt64.toNat_ofNat_of_lt' (hlt y)] at hnat
  have hcmp : compare (serialize x).reverse (serialize y).reverse =
      compare (BigEndian.ofBytes (serialize x).reverse) (BigEndian.ofBytes (serialize y).reverse) :=
    BigEndian.compare_ofBytes (by simp)
  rw [hnat, Std.compare_self] at hcmp
  exact List.reverse_injective (LawfulEqCmp.eq_of_compare hcmp)

theorem wordsOf_fieldValue (tid sid id : UInt64) (fid : UInt8) :
    wordsOf (Key.fieldValue tid sid id fid).encode =
      [firstWord (serialize tid), firstWord (serialize sid), firstWord (serialize id)] := by
  have hlen : (Key.fieldValue tid sid id fid).encode.length = 28 := by
    simp [Key.encode, fieldValueKey, fieldValuePrefix]
  have hdrop : (Key.fieldValue tid sid id fid).encode.drop 3 =
      serialize tid ++ (serialize sid ++ (serialize id ++ [fid])) := by
    simp [Key.encode, fieldValueKey, fieldValuePrefix, addr]
  rw [wordsOf, hlen, hdrop]
  simp only [Nat.reduceSub, Nat.reduceDiv, wordsFrom, firstWord_serialize,
    List.drop_left' (length_serialize _)]

/-- **The values of two fields of one document clash**, and no other values do. -/
theorem clash_fieldValue_iff {tid sid id tid' sid' id' : UInt64} {fid fid' : UInt8} :
    Clash (.fieldValue tid sid id fid) (.fieldValue tid' sid' id' fid') ↔
      (tid = tid' ∧ sid = sid' ∧ id = id') ∧ fid ≠ fid' := by
  rw [Clash, wordsOf_fieldValue, wordsOf_fieldValue]
  constructor
  · rintro ⟨hne, -, -, hpre⟩
    have hsame : tid = tid' ∧ sid = sid' ∧ id = id' := by
      rcases hpre with hpre | hpre
      · simpa only [List.cons.injEq, firstWord_inj, and_true] using hpre.eq_of_length (by simp)
      · simpa only [List.cons.injEq, firstWord_inj, and_true] using (hpre.eq_of_length (by simp)).symm
    refine ⟨hsame, fun hfid => hne ?_⟩
    obtain ⟨rfl, rfl, rfl⟩ := hsame
    rw [hfid]
  · rintro ⟨⟨rfl, rfl, rfl⟩, hfid⟩
    refine ⟨?_, rfl, show fieldValuePrefix ≠ tablePrefix by decide, .inl (List.prefix_refl _)⟩
    simpa using hfid

/-- The fields 0 and 1 of a document are equal to it, and their keys are not. -/
theorem not_comparator_valid : ¬ ComparatorValid Set.univ := by
  intro h
  have heq := (h.eq_iff (.fieldValue 0 0 0 0) trivial (.fieldValue 0 0 0 1) trivial).mp
    (by decide +kernel)
  cases Key.encode_inj.mp heq

end CxxLab.RocksdbLab
