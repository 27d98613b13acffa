import Libchrome.Library.Bytes
import Mathlib.Tactic.Common

/-! The base64 encoding of RFC 4648, with mandatory padding. -/

namespace Libchrome.Library.Base64
open Library.Bytes

def pad : Byte := 0x3d

/-- The character of a digit. -/
def digit (value : BitVec 6) : Byte :=
  if value < 26 then 0x41 + value.setWidth 8
  else if value < 52 then 0x61 + (value.setWidth 8 - 26)
  else if value < 62 then 0x30 + (value.setWidth 8 - 52)
  else if value = 62 then 0x2b else 0x2f

/-- The digit of a character. -/
def valueOf (c : Byte) : Option (BitVec 6) :=
  if 0x41 ≤ c ∧ c ≤ 0x5a then some ((c - 0x41).setWidth 6)
  else if 0x61 ≤ c ∧ c ≤ 0x7a then some ((c - 0x61 + 26).setWidth 6)
  else if 0x30 ≤ c ∧ c ≤ 0x39 then some ((c - 0x30 + 52).setWidth 6)
  else if c = 0x2b then some 62
  else if c = 0x2f then some 63
  else none

/-- The characters of a last group, without its padding. -/
def tail : List Byte → List Byte
  | [a] => [digit (a.extractLsb' 2 6), digit (a.extractLsb' 0 2 ++ 0#4)]
  | [a, b] => [digit (a.extractLsb' 2 6), digit (a.extractLsb' 0 2 ++ b.extractLsb' 4 4),
      digit (b.extractLsb' 0 4 ++ 0#2)]
  | _ => []

/-- The characters of the bytes, without padding. -/
def digits : List Byte → List Byte
  | a :: b :: c :: rest => digit (a.extractLsb' 2 6) :: digit (a.extractLsb' 0 2 ++ b.extractLsb' 4 4) ::
      digit (b.extractLsb' 0 4 ++ c.extractLsb' 6 2) :: digit (c.extractLsb' 0 6) :: digits rest
  | last => tail last

theorem byGroups {motive : List Byte → Prop} (none : motive []) (one : ∀ a, motive [a]) (two : ∀ a b, motive [a, b])
    (three : ∀ a b c rest, motive rest → motive (a :: b :: c :: rest)) (bytes : List Byte) : motive bytes := by
  induction bytes using digits.induct with
  | case1 a b c rest ih => exact three a b c rest ih
  | case2 last short =>
    cases last with
    | nil => exact none
    | cons a last =>
      cases last with
      | nil => exact one a
      | cons b last =>
        cases last with
        | nil => exact two a b
        | cons c rest => exact absurd rfl (short a b c rest)

/-- Characters that are missing in the last group of four. -/
def missing (count : Nat) : Nat := (4 - count % 4) % 4

def encode (bytes : List Byte) : List Byte :=
  digits bytes ++ List.replicate (missing (digits bytes).length) pad

/-- The bytes of a group of four characters, of which only the last may be padded. -/
def group (a b c d : Byte) (last : Bool) : Option (List Byte) := do
  let x ← valueOf a
  let y ← valueOf b
  if last ∧ d = pad then
    if c = pad then return [x ++ y.extractLsb' 4 2]
    let z ← valueOf c
    return [x ++ y.extractLsb' 4 2, y.extractLsb' 0 4 ++ z.extractLsb' 2 4]
  let z ← valueOf c
  let w ← valueOf d
  return [x ++ y.extractLsb' 4 2, y.extractLsb' 0 4 ++ z.extractLsb' 2 4, z.extractLsb' 0 2 ++ w]

def decode : List Byte → Option (List Byte)
  | [] => some []
  | a :: b :: c :: d :: rest => do
    let bytes ← group a b c d rest.isEmpty
    let more ← decode rest
    return bytes ++ more
  | _ => none

theorem valueOf_digit (value : BitVec 6) : valueOf (digit value) = some value := by
  revert value
  decide +kernel

theorem digit_ne_pad (value : BitVec 6) : digit value ≠ pad := by
  revert value
  decide +kernel

/-- The bits of a byte that starts in one character and ends in the next come together again. -/
theorem first_joined (x : Byte) (low : BitVec 4) :
    x.extractLsb' 2 6 ++ (x.extractLsb' 0 2 ++ low).extractLsb' 4 2 = x := by
  rw [BitVec.extractLsb'_append_eq_left (a := x.extractLsb' 0 2) (b := low)]
  exact @BitVec.extractLsb'_append_extractLsb' 6 2 x

theorem second_joined (x : Byte) (high low : BitVec 2) :
    (high ++ x.extractLsb' 4 4).extractLsb' 0 4 ++ (x.extractLsb' 0 4 ++ low).extractLsb' 2 4 = x := by
  rw [BitVec.extractLsb'_append_eq_right (a := high) (b := x.extractLsb' 4 4),
    BitVec.extractLsb'_append_eq_left (a := x.extractLsb' 0 4) (b := low)]
  exact @BitVec.extractLsb'_append_extractLsb' 4 4 x

theorem third_joined (x : Byte) (high : BitVec 4) :
    (high ++ x.extractLsb' 6 2).extractLsb' 0 2 ++ x.extractLsb' 0 6 = x := by
  rw [BitVec.extractLsb'_append_eq_right (a := high) (b := x.extractLsb' 6 2)]
  exact @BitVec.extractLsb'_append_extractLsb' 2 6 x

theorem group_full (a b c : Byte) (last : Bool) :
    group (digit (a.extractLsb' 2 6)) (digit (a.extractLsb' 0 2 ++ b.extractLsb' 4 4))
      (digit (b.extractLsb' 0 4 ++ c.extractLsb' 6 2)) (digit (c.extractLsb' 0 6)) last = some [a, b, c] := by
  simp only [group, valueOf_digit, digit_ne_pad, and_false, if_false, Option.bind_eq_bind, Option.bind_some,
    first_joined, second_joined, third_joined]
  rfl

theorem group_two (a b : Byte) :
    group (digit (a.extractLsb' 2 6)) (digit (a.extractLsb' 0 2 ++ b.extractLsb' 4 4))
      (digit (b.extractLsb' 0 4 ++ 0#2)) pad true = some [a, b] := by
  simp only [group, valueOf_digit, digit_ne_pad, and_self, if_true, if_false, Option.bind_eq_bind, Option.bind_some,
    first_joined, second_joined]
  rfl

theorem group_one (a : Byte) :
    group (digit (a.extractLsb' 2 6)) (digit (a.extractLsb' 0 2 ++ 0#4)) pad pad true = some [a] := by
  simp only [group, valueOf_digit, and_self, if_true, Option.bind_eq_bind, Option.bind_some, first_joined]
  rfl

theorem encode_cons (a b c : Byte) (rest : List Byte) : encode (a :: b :: c :: rest) =
    digit (a.extractLsb' 2 6) :: digit (a.extractLsb' 0 2 ++ b.extractLsb' 4 4) ::
      digit (b.extractLsb' 0 4 ++ c.extractLsb' 6 2) :: digit (c.extractLsb' 0 6) :: encode rest := by
  have length : missing (digits (a :: b :: c :: rest)).length = missing (digits rest).length := by
    simp only [missing, digits, List.length_cons]
    omega
  rw [encode, length]
  rfl

theorem decode_encode (bytes : List Byte) : decode (encode bytes) = some bytes := by
  induction bytes using byGroups with
  | none => rfl
  | one a =>
    change decode [digit (a.extractLsb' 2 6), digit (a.extractLsb' 0 2 ++ 0#4), pad, pad] = some [a]
    rw [decode, List.isEmpty_nil, group_one]
    rfl
  | two a b =>
    change decode [digit (a.extractLsb' 2 6), digit (a.extractLsb' 0 2 ++ b.extractLsb' 4 4),
      digit (b.extractLsb' 0 4 ++ 0#2), pad] = some [a, b]
    rw [decode, List.isEmpty_nil, group_two]
    rfl
  | three a b c rest ih =>
    rw [encode_cons, decode, group_full, ih]
    rfl

theorem exists_digit_of_mem {bytes : List Byte} {c : Byte} (member : c ∈ digits bytes) : ∃ value, c = digit value := by
  induction bytes using byGroups with
  | none => cases member
  | one a =>
    simp only [digits, tail, List.mem_cons, List.not_mem_nil, or_false] at member
    rcases member with rfl | rfl
    · exact ⟨_, rfl⟩
    · exact ⟨_, rfl⟩
  | two a b =>
    simp only [digits, tail, List.mem_cons, List.not_mem_nil, or_false] at member
    rcases member with rfl | rfl | rfl
    · exact ⟨_, rfl⟩
    · exact ⟨_, rfl⟩
    · exact ⟨_, rfl⟩
  | three a b c rest ih =>
    simp only [digits, List.mem_cons] at member
    rcases member with rfl | rfl | rfl | rfl | member
    · exact ⟨_, rfl⟩
    · exact ⟨_, rfl⟩
    · exact ⟨_, rfl⟩
    · exact ⟨_, rfl⟩
    · exact ih member

end Libchrome.Library.Base64
