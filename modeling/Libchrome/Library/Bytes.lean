import Mathlib.Data.BitVec
import Mathlib.Data.List.Basic
import Mathlib.Tactic.Common

/-! Little-endian integers and blocks of memory that are written in place. -/

namespace Libchrome.Library.Bytes

abbrev Byte := BitVec 8

/-- The `count` low bytes of `value`, the lowest first. -/
def encode : Nat → Nat → List Byte
  | 0, _ => []
  | count + 1, value => BitVec.ofNat 8 value :: encode count (value / 256)

def decode : List Byte → Nat
  | [] => 0
  | byte :: rest => byte.toNat + 256 * decode rest

@[simp] theorem length_encode (count value : Nat) : (encode count value).length = count := by
  induction count generalizing value with
  | zero => rfl
  | succ count ih => rw [encode, List.length_cons, ih]

theorem decode_encode (count value : Nat) : decode (encode count value) = value % 256 ^ count := by
  induction count generalizing value with
  | zero => rw [encode, decode, Nat.pow_zero, Nat.mod_one]
  | succ count ih =>
    have byte : (BitVec.ofNat 8 value).toNat = value % 256 := BitVec.toNat_ofNat value 8
    rw [encode, decode, ih, byte, Nat.pow_succ', Nat.mod_mul]

theorem decode_lt (bytes : List Byte) : decode bytes < 256 ^ bytes.length := by
  induction bytes with
  | nil => exact Nat.one_pos
  | cons byte rest ih =>
    have small := byte.isLt
    rw [decode, List.length_cons, Nat.pow_succ']
    omega

theorem encode_decode (bytes : List Byte) : encode bytes.length (decode bytes) = bytes := by
  induction bytes with
  | nil => rfl
  | cons byte rest ih =>
    have small := byte.isLt
    have low : BitVec.ofNat 8 (byte.toNat + 256 * decode rest) = byte := by
      apply BitVec.eq_of_toNat_eq
      rw [BitVec.toNat_ofNat]
      omega
    have high : (byte.toNat + 256 * decode rest) / 256 = decode rest := by omega
    rw [decode, List.length_cons, encode, low, high, ih]

/-- A machine word survives its own encoding. -/
theorem ofNat_decode_encode {width : Nat} (count : Nat) (fits : 2 ^ width ≤ 256 ^ count) (value : BitVec width) :
    BitVec.ofNat width (decode (encode count value.toNat)) = value := by
  rw [decode_encode, Nat.mod_eq_of_lt (Nat.lt_of_lt_of_le value.isLt fits), BitVec.ofNat_toNat, BitVec.setWidth_eq]

section Block
variable {α : Type}

/-- The block after `bytes` were stored at `offset`. -/
def overwrite (block : List α) (offset : Nat) (bytes : List α) : List α :=
  block.take offset ++ bytes ++ block.drop (offset + bytes.length)

theorem overwrite_append (front middle bytes back : List α) (same : bytes.length = middle.length) :
    overwrite (front ++ (middle ++ back)) front.length bytes = front ++ (bytes ++ back) := by
  have reached : (front ++ middle).length = front.length + bytes.length := by
    rw [List.length_append, same]
  unfold overwrite
  rw [List.take_left, ← List.append_assoc front middle back, List.drop_left' reached, List.append_assoc]

end Block
end Libchrome.Library.Bytes
