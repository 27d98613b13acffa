import Libchrome.Library.Bytes
import Mathlib.Data.Int.Order.Basic

/-! The codec of RSA keys in PKCS #8: the list that is built from its end, and the reader that walks the input. -/

namespace Libchrome.Crypto
open Library.Bytes

/-- The eight integers of a key, each in the byte order of the codec. -/
@[ext] structure PrivateKeyInfoCodec where
  bigEndian : Bool
  modulus : List Byte
  publicExponent : List Byte
  privateExponent : List Byte
  prime1 : List Byte
  prime2 : List Byte
  exponent1 : List Byte
  exponent2 : List Byte
  coefficient : List Byte
  deriving DecidableEq

/-- `rejected` is a check that failed, `fault` an access outside the buffers or a length that no vector has. -/
inductive Failure
  | rejected
  | fault
  deriving DecidableEq

abbrev Reading (α : Type) := Except Failure (α × List Byte)

namespace PrivateKeyInfoCodec

def kRsaAlgorithmIdentifier : List Byte :=
  [0x30, 0x0D, 0x06, 0x09, 0x2A, 0x86, 0x48, 0x86, 0xF7, 0x0D, 0x01, 0x01, 0x01, 0x05, 0x00]

def kIntegerTag : Byte := 0x02
def kOctetStringTag : Byte := 0x04
def kSequenceTag : Byte := 0x30

/-- A codec that holds no key yet. -/
def fresh (bigEndian : Bool) : PrivateKeyInfoCodec := ⟨bigEndian, [], [], [], [], [], [], [], []⟩

section Export

/-- The loop stores the last of the bytes first. -/
def prependBytes (val : List Byte) (start : Nat) : Nat → List Byte → List Byte
  | 0, data => data
  | numBytes + 1, data => prependBytes val start numBytes (val.getD (start + numBytes) 0 :: data)

/-- The `while` of `PrependLength` for the long form. -/
def prependOctets (size : Nat) (data : List Byte) (numBytes : Nat) : List Byte × Nat :=
  if 0 < size then prependOctets (size / 256) (BitVec.ofNat 8 (size % 256) :: data) (numBytes + 1)
  else (data, numBytes)

/-- The check that at most four bytes were written holds for every size of 32 bits. -/
def prependLength (size : Nat) (data : List Byte) : List Byte :=
  if size < 0x80 then BitVec.ofNat 8 size :: data
  else
    let (data, numBytes) := prependOctets size data 0
    (0x80 ||| BitVec.ofNat 8 numBytes) :: data

def prependTypeHeaderAndLength (type : Byte) (length : Nat) (output : List Byte) : List Byte :=
  type :: prependLength (length % 2 ^ 32) output

/-- Every zero skipped moves the start and shortens what is left, so at most half of the bytes are skipped. -/
def skipZeros (val : List Byte) (start numBytes : Nat) : Nat × Nat :=
  if start + 1 < numBytes ∧ val.getD start 0 = 0 then skipZeros val (start + 1) (numBytes - 1)
  else (start, numBytes)
termination_by numBytes

def prependIntegerImpl (val : List Byte) (data : List Byte) (bigEndian : Bool) : List Byte :=
  let val := if bigEndian then val else val.reverse
  let (start, numBytes) := skipZeros val 0 val.length
  let data := prependBytes val start numBytes data
  if data.headD 0 &&& 0x80 ≠ 0 then prependTypeHeaderAndLength kIntegerTag (numBytes + 1) (0 :: data)
  else prependTypeHeaderAndLength kIntegerTag numBytes data

def prependInteger (codec : PrivateKeyInfoCodec) (val : List Byte) (data : List Byte) : List Byte :=
  prependIntegerImpl val data codec.bigEndian

def exportKey (codec : PrivateKeyInfoCodec) : List Byte :=
  let version : List Byte := [0]
  let content := codec.prependInteger codec.coefficient []
  let content := codec.prependInteger codec.exponent2 content
  let content := codec.prependInteger codec.exponent1 content
  let content := codec.prependInteger codec.prime2 content
  let content := codec.prependInteger codec.prime1 content
  let content := codec.prependInteger codec.privateExponent content
  let content := codec.prependInteger codec.publicExponent content
  let content := codec.prependInteger codec.modulus content
  let content := codec.prependInteger version content
  let content := prependTypeHeaderAndLength kSequenceTag content.length content
  let content := prependTypeHeaderAndLength kOctetStringTag content.length content
  let content := kRsaAlgorithmIdentifier ++ content
  let content := codec.prependInteger version content
  prependTypeHeaderAndLength kSequenceTag content.length content

end Export

section Import

/-- The content must end inside the input; the length is a signed number in this check. -/
def bounded (length : BitVec 32) (rest : List Byte) : Reading (BitVec 32) :=
  if length.toInt ≤ rest.length then .ok (length, rest) else .error .rejected

def readLength : List Byte → Reading (BitVec 32)
  | [] => .error .rejected
  | first :: rest =>
    if first &&& 0x80 = 0 then bounded (first.setWidth 32) rest
    else
      let lengthOfLength := (first &&& 0x7f).toNat
      if lengthOfLength ≤ 4 ∧ lengthOfLength < rest.length then
        bounded ((rest.take lengthOfLength).foldl (fun length byte => (length <<< 8) ||| byte.setWidth 32) 0)
          (rest.drop lengthOfLength)
      else .error .rejected

def readTypeHeaderAndLength (expectedTag : Byte) : List Byte → Reading (BitVec 32)
  | [] => .error .rejected
  | tag :: rest => if tag = expectedTag then readLength rest else .error .rejected

def readSequence (pos : List Byte) : Reading (BitVec 32) := readTypeHeaderAndLength kSequenceTag pos

def readAlgorithmIdentifier (pos : List Byte) : Reading Unit :=
  if kRsaAlgorithmIdentifier.length < pos.length ∧
      pos.take kRsaAlgorithmIdentifier.length = kRsaAlgorithmIdentifier then
    .ok ((), pos.drop kRsaAlgorithmIdentifier.length)
  else .error .rejected

/-- The bytes of a version are all zero. -/
def readZeros : Nat → List Byte → Reading Unit
  | 0, pos => .ok ((), pos)
  | _ + 1, [] => .error .fault
  | length + 1, byte :: rest => if byte = 0 then readZeros length rest else .error .rejected

def readVersion (pos : List Byte) : Except Failure (Unit × List Byte) := do
  let (length, pos) ← readTypeHeaderAndLength kIntegerTag pos
  readZeros length.toNat pos

/-- The bytes of an integer are appended to `out`, and the whole is reversed for a little-endian reader. -/
def readBytes (length : BitVec 32) (pos : List Byte) (out : List Byte) (bigEndian : Bool) : Reading (List Byte) :=
  if length.toNat ≤ pos.length then
    let out := out ++ pos.take length.toNat
    .ok (if bigEndian then out else out.reverse, pos.drop length.toNat)
  else .error .fault

def readIntegerImpl (pos : List Byte) (out : List Byte) (bigEndian : Bool) :
    Except Failure (List Byte × List Byte) := do
  let (length, pos) ← readTypeHeaderAndLength kIntegerTag pos
  if length = 0 then .error .rejected
  else
    match pos with
    | [] => .error .fault
    | first :: rest =>
      if first = 0 then readBytes (length - 1) rest out bigEndian
      else readBytes length pos out bigEndian

def readInteger (codec : PrivateKeyInfoCodec) (pos : List Byte) (out : List Byte) : Reading (List Byte) :=
  readIntegerImpl pos out codec.bigEndian

/-- The zeros between the start of `out` and the integer; a count below zero is more than a vector holds. -/
def padded (codec : PrivateKeyInfoCodec) (out temp : List Byte) (pad : BitVec 32) (pos : List Byte) :
    Reading (List Byte) :=
  if 0 ≤ pad.toInt then
    let out := out ++ List.replicate pad.toNat 0 ++ temp
    .ok (if codec.bigEndian then out else out.reverse, pos)
  else .error .fault

/-- The size is a `size_t`, and the difference is kept in an `int`. -/
def readIntegerWithExpectedSize (codec : PrivateKeyInfoCodec) (pos : List Byte) (expectedSize : BitVec 64)
    (out : List Byte) : Except Failure (List Byte × List Byte) := do
  let (temp, pos) ← readIntegerImpl pos [] true
  let pad := (expectedSize - BitVec.ofNat 64 temp.length).setWidth 32
  if out.length = (expectedSize + 1).toNat then
    match out with
    | [] => .error .fault
    | first :: _ => if first = 0 then codec.padded out temp (pad + 1) pos else .error .rejected
  else if out.length ≤ expectedSize.toNat then codec.padded out temp pad pos
  else .error .rejected

def importKey (codec : PrivateKeyInfoCodec) (input : List Byte) : Except Failure PrivateKeyInfoCodec := do
  if input = [] then .error .rejected
  let (_, src) ← readSequence input
  let (_, src) ← readVersion src
  let (_, src) ← readAlgorithmIdentifier src
  let (_, src) ← readTypeHeaderAndLength kOctetStringTag src
  let (_, src) ← readSequence src
  let (_, src) ← readVersion src
  let (modulus, src) ← codec.readInteger src codec.modulus
  let modSize := BitVec.ofNat 32 modulus.length
  if modSize.toInt % 2 ≠ 0 then .error .rejected
  let primesSize := (modSize.sdiv 2).signExtend 64
  let (publicExponent, src) ← codec.readIntegerWithExpectedSize src 4 codec.publicExponent
  let (privateExponent, src) ← codec.readIntegerWithExpectedSize src (modSize.signExtend 64) codec.privateExponent
  let (prime1, src) ← codec.readIntegerWithExpectedSize src primesSize codec.prime1
  let (prime2, src) ← codec.readIntegerWithExpectedSize src primesSize codec.prime2
  let (exponent1, src) ← codec.readIntegerWithExpectedSize src primesSize codec.exponent1
  let (exponent2, src) ← codec.readIntegerWithExpectedSize src primesSize codec.exponent2
  let (coefficient, src) ← codec.readIntegerWithExpectedSize src primesSize codec.coefficient
  if src ≠ [] then .error .rejected
  return ⟨codec.bigEndian, modulus, publicExponent, privateExponent, prime1, prime2, exponent1, exponent2,
    coefficient⟩

end Import
end PrivateKeyInfoCodec
end Libchrome.Crypto
