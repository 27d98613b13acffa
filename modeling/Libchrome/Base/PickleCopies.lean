import Libchrome.Base.PickleWriting

/-!
# Copies of pickles

A copy takes the header and the payload of its source, into a block of its own, and the write offset of its source.
-/

namespace Libchrome.Base
open Library.Bytes
namespace Pickle

/-- The pickle was made from a block of bytes that it does not own. -/
def ReadOnly (pickle : Pickle) : Prop := pickle.capacity_after_header_ = kCapacityReadOnly

instance (pickle : Pickle) : Decidable pickle.ReadOnly := inferInstanceAs (Decidable (_ = _))

/-- `memcpy(header_, block, size)`: no result if that leaves the block. -/
def copyBlock (pickle : Pickle) (block : List Byte) (size : Nat) : Option Pickle :=
  if size ≤ block.length then some { pickle with header_ := pickle.header_.map (overwrite · 0 (block.take size)) }
  else none

/-- The payload that the header speaks of. -/
def contents (pickle : Pickle) : List Byte := pickle.payload.take pickle.payload_size

/-- What the header of a pickle that owns its block must say. -/
structure Tracked (pickle : Pickle) : Prop where
  offset : pickle.write_offset_ = pickle.payload_size
  capacity : pickle.payload_size ≤ pickle.capacity_after_header_

section Copying
variable (garbage : Nat → Nat → Byte)

/-- `Pickle(const Pickle& other)`. There is no result if the header of `other` is NULL. -/
def copy (other : Pickle) : Option Pickle := do
  let block ← other.header_
  let pickle ← resize garbage ⟨none, other.header_size_, 0, other.write_offset_⟩ (payloadSizeField block)
  copyBlock pickle block (pickle.header_size_ + payloadSizeField block)

/-- `operator=`, of another pickle. -/
def assign (pickle other : Pickle) : Option Pickle := do
  let pickle := if pickle.capacity_after_header_ = kCapacityReadOnly then
    { pickle with header_ := none, capacity_after_header_ := 0 } else pickle
  let pickle := if pickle.header_size_ ≠ other.header_size_ then
    { pickle with header_ := none, header_size_ := other.header_size_ } else pickle
  let block ← other.header_
  let pickle ← resize garbage pickle (payloadSizeField block)
  let pickle ← copyBlock pickle block (other.header_size_ + payloadSizeField block)
  return { pickle with write_offset_ := other.write_offset_ }

/-- `Reserve`: makes room, and writes nothing. -/
def reserve (length : Nat) : Writer Bool := fun pickle =>
  let new_size := pickle.write_offset_ + align length 4
  if new_size > pickle.capacity_after_header_ then
    (resize garbage pickle (pickle.capacity_after_header_ * 2 + new_size)).map (true, ·)
  else some (true, pickle)

theorem length_realloc (block : List Byte) (size : Nat) : (realloc garbage block size).length = size := by
  rw [realloc, List.length_append, List.length_take, List.length_map, List.length_range]
  omega

theorem overwrite_front (block bytes : List Byte) : overwrite block 0 bytes = bytes ++ block.drop bytes.length := by
  rw [overwrite, List.take_zero, List.nil_append, Nat.zero_add]

/-- A pickle whose block is the source's header and payload, then room for the rest. -/
structure CopyOf (copied source : Pickle) (block : List Byte) : Prop where
  header : ∃ room, copied.header_ = some (block.take (source.header_size_ + payloadSizeField block) ++ room) ∧
    source.header_size_ + payloadSizeField block + room.length =
      source.header_size_ + align (payloadSizeField block) kPayloadUnit
  enough : source.header_size_ + payloadSizeField block ≤ block.length
  header_size : copied.header_size_ = source.header_size_
  capacity : copied.capacity_after_header_ = align (payloadSizeField block) kPayloadUnit
  write_offset : copied.write_offset_ = source.write_offset_

theorem copyOf_block {pickle source copied : Pickle} {block : List Byte} {larger : Pickle}
    (resized : resize garbage pickle (payloadSizeField block) = some larger)
    (size : pickle.header_size_ = source.header_size_)
    (stored : copyBlock larger block (source.header_size_ + payloadSizeField block) = some copied) :
    CopyOf { copied with write_offset_ := source.write_offset_ } source block := by
  unfold resize at resized
  split at resized
  next => cases resized
  next writable =>
    cases resized
    unfold copyBlock at stored
    split at stored
    next enough =>
      cases stored
      have aligned := align_payloadUnit (payloadSizeField block)
      have taken : (block.take (source.header_size_ + payloadSizeField block)).length =
          source.header_size_ + payloadSizeField block := List.length_take_of_le enough
      have whole := length_realloc garbage (pickle.header_.getD [])
        (pickle.header_size_ + align (payloadSizeField block) kPayloadUnit)
      refine ⟨⟨_, congrArg some (overwrite_front _ _), ?_⟩, enough, size, rfl, rfl⟩
      rw [taken, List.length_drop, whole]
      omega
    next => cases stored

theorem copyOf_copy {source copied : Pickle} (made : copy garbage source = some copied) :
    ∃ block, source.header_ = some block ∧ CopyOf copied source block := by
  unfold copy at made
  obtain ⟨block, header, made⟩ := Option.bind_eq_some_iff.mp made
  obtain ⟨larger, resized, stored⟩ := Option.bind_eq_some_iff.mp made
  refine ⟨block, header, ?_⟩
  have same : larger.header_size_ = source.header_size_ ∧ larger.write_offset_ = source.write_offset_ := by
    unfold resize at resized
    rw [if_neg (show (0 : Nat) ≠ kCapacityReadOnly by decide)] at resized
    cases resized
    exact ⟨rfl, rfl⟩
  rw [same.1] at stored
  have copyOf : CopyOf { copied with write_offset_ := source.write_offset_ } source block :=
    copyOf_block garbage resized rfl stored
  have kept : copied.write_offset_ = source.write_offset_ := by
    unfold copyBlock at stored
    split at stored
    next =>
      cases stored
      exact same.2
    next => cases stored
  rwa [← kept] at copyOf

theorem copyOf_assign {pickle source assigned : Pickle} (made : assign garbage pickle source = some assigned) :
    ∃ block, source.header_ = some block ∧ CopyOf assigned source block := by
  unfold assign at made
  dsimp only at made
  obtain ⟨block, header, made⟩ := Option.bind_eq_some_iff.mp made
  obtain ⟨larger, resized, made⟩ := Option.bind_eq_some_iff.mp made
  obtain ⟨copied, stored, made⟩ := Option.bind_eq_some_iff.mp made
  cases made
  refine ⟨block, header, copyOf_block garbage resized ?_ stored⟩
  generalize (if pickle.capacity_after_header_ = kCapacityReadOnly then
    { pickle with header_ := none, capacity_after_header_ := 0 } else pickle) = cleared
  split
  next => rfl
  next same => exact not_not.mp same

end Copying

section Copied
variable {copied source : Pickle} {block : List Byte}

theorem payloadSizeField_take {size : Nat} (least : sizeofHeader ≤ size) (room : List Byte)
    (enough : size ≤ block.length) : payloadSizeField (block.take size ++ room) = payloadSizeField block := by
  have taken : (block.take size).length = size := List.length_take_of_le enough
  unfold payloadSizeField
  rw [List.take_append_of_le_length (taken.symm ▸ least), List.take_take, Nat.min_eq_left least]

theorem CopyOf.payload_size (copyOf : CopyOf copied source block) (header : source.header_ = some block)
    (least : sizeofHeader ≤ source.header_size_) : copied.payload_size = source.payload_size := by
  obtain ⟨room, same, -⟩ := copyOf.header
  unfold Pickle.payload_size
  rw [same, header]
  exact payloadSizeField_take (Nat.le_trans least (Nat.le_add_right _ _)) room copyOf.enough

/-- The contents are copied, whatever the source was. -/
theorem CopyOf.contents (copyOf : CopyOf copied source block) (header : source.header_ = some block)
    (least : sizeofHeader ≤ source.header_size_) : copied.contents = source.contents := by
  have size := copyOf.payload_size header least
  obtain ⟨room, same, -⟩ := copyOf.header
  have enough := copyOf.enough
  have field : source.payload_size = payloadSizeField block := by rw [Pickle.payload_size, header]
  have front : source.header_size_ ≤ (block.take (source.header_size_ + payloadSizeField block)).length := by
    rw [List.length_take_of_le enough]
    omega
  have long : payloadSizeField block ≤
      ((block.take (source.header_size_ + payloadSizeField block)).drop source.header_size_).length := by
    rw [List.length_drop, List.length_take_of_le enough]
    omega
  unfold Pickle.contents Pickle.payload
  rw [size, field, same, header, copyOf.header_size, Option.getD_some, Option.getD_some,
    List.drop_append_of_le_length front, List.take_append_of_le_length long, List.drop_take, Nat.add_sub_cancel_left,
    List.take_take, Nat.min_self]

/-- A copy is tracked exactly if the offset of its source says where the payload of the source ends. -/
theorem CopyOf.tracked_iff (copyOf : CopyOf copied source block) (header : source.header_ = some block)
    (least : sizeofHeader ≤ source.header_size_) : copied.Tracked ↔ source.write_offset_ = source.payload_size := by
  have size := copyOf.payload_size header least
  constructor
  · intro tracked
    rw [← copyOf.write_offset, ← size]
    exact tracked.offset
  · intro same
    refine ⟨by rw [copyOf.write_offset, size, same], ?_⟩
    rw [size, copyOf.capacity, Pickle.payload_size, header]
    exact (align_payloadUnit _).1

/-- A copy of a block that is divided up has the same header and payload. -/
theorem CopyOf.layout {head payload rest : List Byte} (copyOf : CopyOf copied source (head ++ (payload ++ rest)))
    (header_size : source.header_size_ = head.length) (least : sizeofHeader ≤ head.length)
    (aligned : head.length % 4 = 0) (size_field : head.take sizeofHeader = encode sizeofHeader payload.length)
    (small : payload.length < 2 ^ 32) (write_offset : source.write_offset_ = payload.length)
    (payload_aligned : payload.length % 4 = 0) : ∃ room, Layout copied head payload room := by
  have field : payloadSizeField (head ++ (payload ++ rest)) = payload.length := by
    rw [payloadSizeField, List.take_append_of_le_length least, size_field, decode_encode]
    exact Nat.mod_eq_of_lt small
  obtain ⟨room, same, length⟩ := copyOf.header
  have total : (head ++ payload).length = source.header_size_ + payload.length := by
    rw [List.length_append, header_size]
  rw [field, ← List.append_assoc, List.take_left' total] at same
  have capacity := copyOf.capacity
  rw [field] at length capacity
  refine ⟨room, ?_⟩
  exact {
    block := by rw [same, List.append_assoc]
    header_size := copyOf.header_size.trans header_size
    header_least := least
    header_aligned := aligned
    size_field := size_field
    capacity := by omega
    capacity_aligned := capacity ▸ (align_payloadUnit _).2
    write_offset := copyOf.write_offset.trans write_offset
    payload_aligned := payload_aligned }

end Copied
end Pickle
end Libchrome.Base
