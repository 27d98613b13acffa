import Libchrome.Library.Bytes

/-! Pickles, the writer side: a block of memory that grows, with a header that holds
the payload size. Uninitialised memory has whatever contents `garbage` gives it. -/

namespace Libchrome.Base
open Library.Bytes

/-- `bits::Align`, for an alignment that is a power of two. -/
def align (size alignment : Nat) : Nat := (size + alignment - 1) / alignment * alignment

def kPayloadUnit : Nat := 64

def kCapacityReadOnly : Nat := 2 ^ 64 - 1

def kPickleHeapAlign : Nat := 4096

/-- `sizeof(Pickle::Header)`: the header proper is the payload size, a `uint32_t`. -/
abbrev sizeofHeader : Nat := 4

structure Pickle where
  /-- The block that starts at the header; `none` is NULL. -/
  header_ : Option (List Byte)
  header_size_ : Nat
  capacity_after_header_ : Nat
  write_offset_ : Nat

/-- The contents of a new block after `realloc` of `block` to `size` bytes. -/
def realloc (garbage : Nat → Nat → Byte) (block : List Byte) (size : Nat) : List Byte :=
  block.take size ++ (List.range (size - block.length)).map (garbage size)

namespace Pickle

/-- `header_->payload_size`. -/
def payloadSizeField (block : List Byte) : Nat := decode (block.take sizeofHeader)

def setPayloadSize (pickle : Pickle) (size : Nat) : Pickle :=
  { pickle with header_ := pickle.header_.map (overwrite · 0 (encode sizeofHeader size)) }

def payload_size (pickle : Pickle) : Nat :=
  match pickle.header_ with
  | none => 0
  | some block => payloadSizeField block

def payload (pickle : Pickle) : List Byte := (pickle.header_.getD []).drop pickle.header_size_

def size (pickle : Pickle) : Nat := pickle.header_size_ + pickle.payload_size

/-- The `size()` bytes at `data()`. -/
def data (pickle : Pickle) : List Byte := (pickle.header_.getD []).take pickle.size

/-- A write: it returns whether it was done. Without a result it hit a CHECK or left its source buffer. -/
abbrev Writer := StateT Pickle Option

section Writing
variable (garbage : Nat → Nat → Byte)

def resize (pickle : Pickle) (new_capacity : Nat) : Option Pickle :=
  if pickle.capacity_after_header_ = kCapacityReadOnly then none
  else
    let capacity := align new_capacity kPayloadUnit
    some { pickle with
      capacity_after_header_ := capacity
      header_ := some (realloc garbage (pickle.header_.getD []) (pickle.header_size_ + capacity)) }

/-- `Pickle(int header_size)`; the default constructor has `header_size = sizeof(Header)`. -/
def new (header_size : Nat) : Option Pickle :=
  (resize garbage ⟨none, align header_size 4, 0, 0⟩ kPayloadUnit).map (setPayloadSize · 0)

/-- The first half of `ClaimUninitializedBytesInternal`: room for a payload of `new_size` bytes. -/
def makeRoom (pickle : Pickle) (new_size : Nat) : Option Pickle :=
  if new_size > pickle.capacity_after_header_ then
    let doubled := pickle.capacity_after_header_ * 2
    let new_capacity :=
      if doubled > kPickleHeapAlign then align doubled kPickleHeapAlign - kPayloadUnit else doubled
    resize garbage pickle (max new_capacity new_size)
  else some pickle

/-- Returns the offset from `header_` of the bytes to write. -/
def claimUninitializedBytesInternal (pickle : Pickle) (length : Nat) : Option (Nat × Pickle) := do
  let data_len := align length 4
  let new_size := pickle.write_offset_ + data_len
  let pickle ← makeRoom garbage pickle new_size
  let write := pickle.header_size_ + pickle.write_offset_
  let padding := List.replicate (data_len - length) (0 : Byte)
  let padded := { pickle with header_ := pickle.header_.map (overwrite · (write + length) padding) }
  return (write, { padded.setPayloadSize new_size with write_offset_ := new_size })

/-- Copies `length` bytes from `data`. -/
def writeBytesCommon (data : List Byte) (length : Nat) : Writer Unit := fun pickle => do
  let (write, pickle) ← claimUninitializedBytesInternal garbage pickle length
  if length ≤ data.length then
    return ((), { pickle with header_ := pickle.header_.map (overwrite · write (data.take length)) })
  else none

/-- `WriteBytes`: the `int` length becomes a `size_t`. -/
def writeBytes (data : List Byte) (length : BitVec 32) : Writer Bool := do
  writeBytesCommon garbage data (length.signExtend 64).toNat
  return true

/-- `WritePOD` of an integer of `count` bytes. -/
def writePOD (count value : Nat) : Writer Bool := do
  writeBytesCommon garbage (encode count value) count
  return true

/-- `&&` of two writes. -/
def andThen (first second : Writer Bool) : Writer Bool := do
  if (← first) then second else return false

def writeInt (value : BitVec 32) : Writer Bool := writePOD garbage 4 value.toNat

def writeBool (value : Bool) : Writer Bool := writeInt garbage (if value then 1 else 0)

def writeUInt16 (value : BitVec 16) : Writer Bool := writePOD garbage 2 value.toNat

def writeUInt32 (value : BitVec 32) : Writer Bool := writePOD garbage 4 value.toNat

def writeInt64 (value : BitVec 64) : Writer Bool := writePOD garbage 8 value.toNat

def writeUInt64 (value : BitVec 64) : Writer Bool := writePOD garbage 8 value.toNat

/-- `size_t` is always written as 64 bits. -/
def writeSizeT (value : BitVec 64) : Writer Bool := writePOD garbage 8 value.toNat

def writeString (value : List Byte) : Writer Bool :=
  andThen (writeInt garbage (BitVec.ofNat 32 value.length))
    (writeBytes garbage value (BitVec.ofNat 32 value.length))

/-- The memory that holds a string of `char16`. -/
def bytesOf16 (value : List (BitVec 16)) : List Byte := value.flatMap fun unit => encode 2 unit.toNat

def writeString16 (value : List (BitVec 16)) : Writer Bool :=
  andThen (writeInt garbage (BitVec.ofNat 32 value.length))
    (writeBytes garbage (bytesOf16 value) (BitVec.ofNat 32 value.length * 2))

def writeData (data : List Byte) (length : BitVec 32) : Writer Bool :=
  if length.toInt ≥ 0 then andThen (writeInt garbage length) (writeBytes garbage data length)
  else return false

end Writing

/-- `Pickle(const char* data, int data_len)`. -/
def ofData (data : List Byte) (data_len : BitVec 32) : Pickle :=
  let deduced := if data_len.toInt ≥ sizeofHeader then
    (data_len - BitVec.ofNat 32 (payloadSizeField data)).toNat else 0
  let bounded := if deduced > data_len.toNat then 0 else deduced
  let header_size := if bounded ≠ align bounded 4 then 0 else bounded
  ⟨if header_size = 0 then none else some data, header_size, kCapacityReadOnly, 0⟩

end Pickle
/-! Pickles, the reader side. -/

structure PickleIterator where
  payload_ : List Byte
  read_index_ : Nat
  end_index_ : Nat

namespace PickleIterator

def new (pickle : Pickle) : PickleIterator := ⟨pickle.payload, 0, pickle.payload_size⟩

/-- A read: `none` is a return value of false. The iterator moves even when a read fails. -/
abbrev Reader := OptionT (StateM PickleIterator)

def advance (iterator : PickleIterator) (size : Nat) : PickleIterator :=
  let aligned_size := align size 4
  if iterator.end_index_ - iterator.read_index_ < aligned_size then
    { iterator with read_index_ := iterator.end_index_ }
  else { iterator with read_index_ := iterator.read_index_ + aligned_size }

/-- The `size` bytes at the read pointer. -/
def current (iterator : PickleIterator) (size : Nat) : List Byte :=
  (iterator.payload_.drop iterator.read_index_).take size

/-- `GetReadPointerAndAdvance<Type>()`, with `size` standing for `sizeof(Type)`. -/
def getTypeAndAdvance (size : Nat) : Reader (List Byte) := fun iterator =>
  if size > iterator.end_index_ - iterator.read_index_ then
    (none, { iterator with read_index_ := iterator.end_index_ })
  else (some (iterator.current size), iterator.advance size)

/-- `GetReadPointerAndAdvance(int num_bytes)`. -/
def getBytesAndAdvance (num_bytes : BitVec 32) : Reader (List Byte) := fun iterator =>
  if num_bytes.toInt < 0 ∨ iterator.end_index_ - iterator.read_index_ < (num_bytes.signExtend 64).toNat then
    (none, { iterator with read_index_ := iterator.end_index_ })
  else (some (iterator.current num_bytes.toNat), iterator.advance num_bytes.toNat)

/-- `GetReadPointerAndAdvance(int num_elements, size_t size_element)`. -/
def getElementsAndAdvance (num_elements : BitVec 32) (size_element : Nat) : Reader (List Byte) :=
  let num_bytes := num_elements.toInt * size_element
  let num_bytes32 := BitVec.ofInt 32 num_bytes
  if num_bytes ≠ num_bytes32.toInt then failure
  else getBytesAndAdvance num_bytes32

/-- `ReadBuiltinType` of an integer of `count` bytes. -/
def readBuiltinType (count : Nat) : Reader Nat := do
  return decode (← getTypeAndAdvance count)

/-- A `bool` is one byte, of which the writer only makes 0 and 1. -/
def readBool : Reader Bool := do
  return (← readBuiltinType 1) ≠ 0

def readInt : Reader (BitVec 32) := do
  return BitVec.ofNat 32 (← readBuiltinType 4)

def readUInt16 : Reader (BitVec 16) := do
  return BitVec.ofNat 16 (← readBuiltinType 2)

def readUInt32 : Reader (BitVec 32) := do
  return BitVec.ofNat 32 (← readBuiltinType 4)

def readInt64 : Reader (BitVec 64) := do
  return BitVec.ofNat 64 (← readBuiltinType 8)

def readUInt64 : Reader (BitVec 64) := do
  return BitVec.ofNat 64 (← readBuiltinType 8)

/-- On a 64-bit platform no value is truncated. -/
def readSizeT : Reader (BitVec 64) := do
  return BitVec.ofNat 64 (← readBuiltinType 8)

def readString : Reader (List Byte) := do
  let len ← readInt
  getBytesAndAdvance len

/-- The `char16` units that `bytes` hold. -/
def unitsOf16 : List Byte → List (BitVec 16)
  | low :: high :: rest => BitVec.ofNat 16 (decode [low, high]) :: unitsOf16 rest
  | _ => []

def readString16 : Reader (List (BitVec 16)) := do
  let len ← readInt
  return unitsOf16 (← getElementsAndAdvance len 2)

def readBytes (length : BitVec 32) : Reader (List Byte) := getBytesAndAdvance length

def readData : Reader (List Byte) := do
  let length ← readInt
  readBytes length

end PickleIterator

/-- The types of the values a caller writes and reads. The length of bytes is known to the caller. -/
inductive PickleType where
  | bool
  | int
  | uint16
  | uint32
  | int64
  | uint64
  | sizeT
  | string
  | string16
  | data
  | bytes (length : BitVec 32)
  deriving DecidableEq, Repr

inductive PickleValue where
  | bool (value : Bool)
  | int (value : BitVec 32)
  | uint16 (value : BitVec 16)
  | uint32 (value : BitVec 32)
  | int64 (value : BitVec 64)
  | uint64 (value : BitVec 64)
  | sizeT (value : BitVec 64)
  | string (value : List Byte)
  | string16 (value : List (BitVec 16))
  | data (value : List Byte)
  | bytes (value : List Byte)
  deriving DecidableEq, Repr

namespace PickleValue

def type : PickleValue → PickleType
  | bool _ => .bool
  | int _ => .int
  | uint16 _ => .uint16
  | uint32 _ => .uint32
  | int64 _ => .int64
  | uint64 _ => .uint64
  | sizeT _ => .sizeT
  | string _ => .string
  | string16 _ => .string16
  | data _ => .data
  | bytes value => .bytes (BitVec.ofNat 32 value.length)

open Pickle in
/-- The write that a value calls for. -/
def write (garbage : Nat → Nat → Byte) : PickleValue → Writer Bool
  | bool value => writeBool garbage value
  | int value => writeInt garbage value
  | uint16 value => writeUInt16 garbage value
  | uint32 value => writeUInt32 garbage value
  | int64 value => writeInt64 garbage value
  | uint64 value => writeUInt64 garbage value
  | sizeT value => writeSizeT garbage value
  | string value => writeString garbage value
  | string16 value => writeString16 garbage value
  | data value => writeData garbage value (BitVec.ofNat 32 value.length)
  | bytes value => writeBytes garbage value (BitVec.ofNat 32 value.length)

/-- One write after the other, while they succeed. -/
def writeAll (garbage : Nat → Nat → Byte) : List PickleValue → Pickle.Writer Bool
  | [] => return true
  | value :: rest => Pickle.andThen (value.write garbage) (writeAll garbage rest)

end PickleValue

namespace PickleType

open PickleIterator in
def read : PickleType → Reader PickleValue
  | bool => return .bool (← readBool)
  | int => return .int (← readInt)
  | uint16 => return .uint16 (← readUInt16)
  | uint32 => return .uint32 (← readUInt32)
  | int64 => return .int64 (← readInt64)
  | uint64 => return .uint64 (← readUInt64)
  | sizeT => return .sizeT (← readSizeT)
  | string => return .string (← readString)
  | string16 => return .string16 (← readString16)
  | data => return .data (← readData)
  | bytes length => return .bytes (← readBytes length)

def readAll : List PickleType → PickleIterator.Reader (List PickleValue)
  | [] => return []
  | type :: rest => return (← type.read) :: (← readAll rest)

end PickleType
end Libchrome.Base
