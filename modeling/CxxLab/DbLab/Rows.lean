import CxxLab.DbLab.Node
import CxxLab.DbLab.Tokener
import CxxLab.Lib.BigEndian
import CxxLab.Lib.CString
import CxxLab.Lib.Decimal

/-!
# `db_lab/user_schema.h` — a row and its text

A row is copied into a cell and out of it byte by byte, so nothing can be lost on that way
(`deserializeFrom_serializeTo`). What is not kept apart are the two strings. `SetUserName` and
`SetEmail` fill their buffers by `strncpy`, and `ToString` prints each as a C string: a user name that
fills its buffer goes on into the email, which is next in the record, and an email that fills its own
goes on into the one byte of padding at the end and from there into whatever is behind the record.
-/

set_option autoImplicit false

namespace CxxLab.DbLab

open CxxLab.Lib

namespace UserSchema

/-- `SetUserName`; the argument is `none` for a null pointer. -/
def setUserName (u : UserSchema) : Option Str → UserSchema
  | none => { u with username := Vector.replicate 32 0 }
  | some un => { u with username := CString.strncpy 32 un }

/-- `SetEmail`, likewise. -/
def setEmail (u : UserSchema) : Option Str → UserSchema
  | none => { u with email := Vector.replicate 255 0 }
  | some e => { u with email := CString.strncpy 255 e }

end UserSchema

/-- A `UserSchema` as it lies in memory: the members, and the byte that rounds its size up to a
multiple of 4. No call sets that byte. -/
structure Row where
  user : UserSchema
  padding : UInt8

namespace Row

/-- `SerializeTo`: the `sizeof(UserSchema)` bytes of the record. -/
def serializeTo (r : Row) : List UInt8 :=
  (BigEndian.toBytes 4 r.user.id.toNat).reverse ++ r.user.username.toList ++ r.user.email.toList ++
    [r.padding]

/-- `n` bytes of a record, from `off` on. -/
def bytesAt (source : List UInt8) (off n : Nat) : Vector UInt8 n :=
  Vector.ofFn fun i : Fin n => source.getD (off + i) 0

/-- `DeserializeFrom`, from memory with at least a record in it. -/
def deserializeFrom (source : List UInt8) : Option Row :=
  if source.length < sizeofUserSchema then none
  else some {
    user := {
      id := UInt32.ofNat (BigEndian.ofBytes (source.take 4).reverse)
      username := bytesAt source 4 32
      email := bytesAt source 36 255 }
    padding := source.getD 291 0 }

/-- What `ToString` writes, given the two strings it finds. -/
def line (id : UInt32) (username email : Str) : Str :=
  lit "(" ++ Decimal.text id.toNat ++ lit ", " ++ username ++ lit ", " ++ email ++ lit ")"

/-- `ToString` of a record with `behind` behind it in memory. The two strings are read from where
they begin up to a zero byte; there is no result if that leads out of `behind`. -/
def toString (r : Row) (behind : List UInt8) : Option Str := do
  let email ← CString.read (r.user.email.toList ++ r.padding :: behind)
  let username ← CString.read (r.user.username.toList ++ (r.user.email.toList ++ r.padding :: behind))
  return line r.user.id username email

/-! ## Into a cell and out of it -/

theorem length_serializeTo (r : Row) : r.serializeTo.length = sizeofUserSchema := by
  simp only [serializeTo, List.length_append, List.length_reverse, BigEndian.length_toBytes,
    Vector.length_toList, List.length_singleton]
  rfl

theorem bytesAt_append {n : Nat} (before behind : List UInt8) (v : Vector UInt8 n) :
    bytesAt (before ++ (v.toList ++ behind)) before.length n = v := by
  apply Vector.ext
  intro i hi
  have hget : (bytesAt (before ++ (v.toList ++ behind)) before.length n)[i] =
      (before ++ (v.toList ++ behind)).getD (before.length + i) 0 := Vector.getElem_ofFn hi
  rw [hget, List.getD_append_right _ _ _ _ (Nat.le_add_right _ _), Nat.add_sub_cancel_left,
    List.getD_append _ _ _ _ (by rw [Vector.length_toList]; exact hi), List.getD_eq_getElem?_getD,
    List.getElem?_eq_getElem (by rw [Vector.length_toList]; exact hi), Option.getD_some,
    Vector.getElem_toList]

/-- **A cell keeps the whole record**, padding and all. -/
theorem deserializeFrom_serializeTo (r : Row) (rest : List UInt8) :
    deserializeFrom (r.serializeTo ++ rest) = some r := by
  obtain ⟨⟨id, username, email⟩, padding⟩ := r
  have hid : UInt32.ofNat (BigEndian.ofBytes (BigEndian.toBytes 4 id.toNat)) = id := by
    rw [BigEndian.ofBytes_toBytes_of_lt id.toNat_lt, UInt32.ofNat_toNat]
  rw [deserializeFrom, List.length_append, length_serializeTo, if_neg (by omega)]
  simp only [serializeTo, List.append_assoc]
  generalize hb : (BigEndian.toBytes 4 id.toNat).reverse = b
  have hlen : b.length = 4 := by rw [← hb, List.length_reverse, BigEndian.length_toBytes]
  have husername : bytesAt (b ++ (username.toList ++ (email.toList ++ ([padding] ++ rest)))) 4 32 =
      username := hlen ▸ bytesAt_append b _ username
  have hemail : bytesAt (b ++ (username.toList ++ (email.toList ++ ([padding] ++ rest)))) 36 255 =
      email := by
    have h := bytesAt_append (b ++ username.toList) ([padding] ++ rest) email
    rwa [List.length_append, hlen, Vector.length_toList, List.append_assoc] at h
  have hpadding : (b ++ (username.toList ++ (email.toList ++ ([padding] ++ rest)))).getD 291 0 =
      padding := by
    rw [← List.append_assoc, ← List.append_assoc, List.getD_append_right _ _ _ _ (by simp [hlen])]
    simp [hlen]
  rw [husername, hemail, hpadding, ← hlen, List.take_left, ← hb, List.reverse_reverse, hid]

/-! ## The text of a row -/

/-- A row as `execute_statement` fills it in. The record is a local variable, with any contents at
first. -/
def fill (r : Row) (id : UInt32) (un e : Str) : Row :=
  { r with user := ({ r.user with id := id }.setUserName (some un)).setEmail (some e) }

/-- The two strings at full length and what follows them, if anything does. -/
theorem line_inj {id : UInt32} {u e s t : Str} :
    line id (u ++ s) (e ++ t) = line id u e ↔ s = [] ∧ t = [] := by
  constructor
  · intro h
    have hlen := congrArg List.length h
    simp only [line, List.length_append] at hlen
    exact ⟨List.eq_nil_of_length_eq_zero (by omega), List.eq_nil_of_length_eq_zero (by omega)⟩
  · rintro ⟨rfl, rfl⟩
    rw [List.append_nil, List.append_nil]

/-- The string in `email`: what fits of it, and more if nothing ends it there. -/
theorem read_email {e : Str} (he : 0 ∉ e) (padding : UInt8) (behind : List UInt8) :
    (∃ t, CString.read ((CString.strncpy 255 e).toList ++ padding :: behind) =
        some (e.take 255 ++ t) ∧ (t = [] ↔ e.length < 255 ∨ padding = 0)) ∨
      CString.read ((CString.strncpy 255 e).toList ++ padding :: behind) = none ∧
        ¬ (e.length < 255 ∨ padding = 0) := by
  rw [CString.read_strncpy _ he]
  by_cases hfits : e.length < 255
  · refine Or.inl ⟨[], ?_, by simp [hfits]⟩
    rw [if_pos hfits, List.append_nil, List.take_of_length_le (Nat.le_of_lt hfits)]
  · rw [if_neg hfits]
    by_cases hzero : padding = 0
    · refine Or.inl ⟨[], ?_, by simp [hzero]⟩
      rw [hzero, CString.read_zero, Option.map_some]
    · rw [show padding :: behind = [padding] ++ behind from rfl,
        CString.read_append (by simpa using Ne.symm hzero)]
      cases hread : CString.read behind with
      | none => exact Or.inr ⟨rfl, by simp [hfits, hzero]⟩
      | some t => exact Or.inl ⟨padding :: t, rfl, by simp [hfits, hzero]⟩

/-- **When a row is printed as it was written**: each of the two strings, cut to the size of its
buffer.

`strncpy` writes no zero behind a string that fills its buffer, so `ToString` reads on. Behind a
username of 32 bytes that is the email, and the row is right only if that is empty. Behind an email
of 255 bytes it is the byte of padding at the end of the record, which is whatever was in the record
that was filled. -/
theorem toString_eq_iff {un e : Str} (hun : 0 ∉ un) (he : 0 ∉ e) (r : Row) (id : UInt32)
    (rest behind : List UInt8) :
    ((deserializeFrom ((r.fill id un e).serializeTo ++ rest)).bind fun other =>
        other.toString behind) = some (line id (un.take 32) (e.take 255)) ↔
      (un.length < 32 ∨ e = []) ∧ (e.length < 255 ∨ r.padding = 0) := by
  rw [deserializeFrom_serializeTo, Option.bind_some, toString]
  have hemail : (r.fill id un e).user.email = CString.strncpy 255 e := rfl
  have husername : (r.fill id un e).user.username = CString.strncpy 32 un := rfl
  have hpadding : (r.fill id un e).padding = r.padding := rfl
  have hid : (r.fill id un e).user.id = id := rfl
  rw [hemail, husername, hpadding, hid]
  rcases read_email he r.padding behind with ⟨t, hread, ht⟩ | ⟨hread, hno⟩
  · rw [CString.read_strncpy _ hun, hread]
    by_cases hfits : un.length < 32
    · rw [if_pos hfits, List.take_of_length_le (Nat.le_of_lt hfits)]
      show some (line id un (e.take 255 ++ t)) = some (line id un (e.take 255)) ↔ _
      have hline := @line_inj id un (e.take 255) [] t
      rw [List.append_nil] at hline
      rw [Option.some.injEq, hline, ht]
      exact ⟨fun h => ⟨Or.inl hfits, h.2⟩, fun h => ⟨rfl, h.2⟩⟩
    · rw [if_neg hfits]
      show some (line id (un.take 32 ++ (e.take 255 ++ t)) (e.take 255 ++ t)) =
        some (line id (un.take 32) (e.take 255)) ↔ _
      have hnil : e.take 255 ++ t = [] ↔ e = [] ∧ t = [] := by simp
      rw [Option.some.injEq, line_inj, hnil, ← ht, or_iff_right hfits, and_assoc, and_self]
  · rw [hread]
    exact ⟨nofun, fun h => absurd h.2 hno⟩

/-- A row of the tests, in a record whose padding happens not to be 0. -/
theorem toString_nana :
    ((deserializeFrom ((fill ⟨UserSchema.zero, 7⟩ 2 (lit "Nana") (lit "nana@163.com")).serializeTo ++
        [])).bind fun other => other.toString []) =
      some (line 2 ((lit "Nana").take 32) ((lit "nana@163.com").take 255)) :=
  (toString_eq_iff (by decide) (by decide) _ 2 [] []).mpr (by decide)

/-- A user name of 32 bytes: the email is printed as a part of it. -/
theorem toString_full_name :
    ((deserializeFrom ((fill ⟨UserSchema.zero, 0⟩ 0 (List.replicate 32 97) [98]).serializeTo ++
        [])).bind fun other => other.toString []) ≠
      some (line 0 ((List.replicate 32 97).take 32) ([98].take 255)) := by
  rw [deserializeFrom_serializeTo, Option.bind_some]
  have hemail : CString.read ((CString.strncpy 255 [98]).toList ++ 0 :: []) = some [98] :=
    CString.read_strncpy _ (by decide)
  have husername : CString.read ((CString.strncpy 32 (List.replicate 32 97)).toList ++
      ((CString.strncpy 255 [98]).toList ++ 0 :: [])) = some (List.replicate 32 97 ++ [98]) := by
    rw [CString.read_strncpy _ (by decide), hemail]
    rfl
  have hline : toString (fill ⟨UserSchema.zero, 0⟩ 0 (List.replicate 32 97) [98]) [] =
      some (line 0 (List.replicate 32 97 ++ [98]) [98]) := by
    show (do
      let email ← CString.read ((CString.strncpy 255 [98]).toList ++ 0 :: [])
      let username ← CString.read ((CString.strncpy 32 (List.replicate 32 97)).toList ++
        ((CString.strncpy 255 [98]).toList ++ 0 :: []))
      return line 0 username email) = _
    rw [hemail, husername]
    rfl
  rw [hline]
  decide

end Row

end CxxLab.DbLab
