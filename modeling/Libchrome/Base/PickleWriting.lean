import Libchrome.Base.Pickle

/-! Every write appends the encoding of its value to the payload. -/

namespace Libchrome.Base
open Library.Bytes

theorem align_four (size : Nat) : size ≤ align size 4 ∧ align size 4 < size + 4 ∧ align size 4 % 4 = 0 := by
  unfold align
  omega

theorem align_payloadUnit (size : Nat) : size ≤ align size kPayloadUnit ∧ align size kPayloadUnit % 64 = 0 := by
  unfold align kPayloadUnit
  omega

theorem int_of_small {value : BitVec 32} (small : value.toNat < 2 ^ 31) :
    value.toInt = value.toNat ∧ (value.signExtend 64).toNat = value.toNat := by
  have positive : value.msb = false := by
    rw [BitVec.msb_eq_false_iff_two_mul_lt]
    omega
  have extended : (value.signExtend 64).toNat = value.toNat := by
    rw [BitVec.signExtend_eq_setWidth_of_msb_false positive, BitVec.toNat_setWidth]
    omega
  exact ⟨BitVec.toInt_eq_toNat_of_msb positive, extended⟩

theorem toNat_length {length : Nat} (small : length < 2 ^ 31) : (BitVec.ofNat 32 length).toNat = length := by
  rw [BitVec.toNat_ofNat]
  omega

/-- A field as it stands in the payload: zeros fill it up to the alignment. -/
def padded (bytes : List Byte) : List Byte := bytes ++ List.replicate (align bytes.length 4 - bytes.length) 0

theorem length_padded (bytes : List Byte) : (padded bytes).length = align bytes.length 4 := by
  have aligned := align_four bytes.length
  rw [padded, List.length_append, List.length_replicate]
  omega

/-- A field whose length is a multiple of the alignment needs no filling. -/
theorem padded_of_aligned {bytes : List Byte} (aligned : bytes.length % 4 = 0) : padded bytes = bytes := by
  have exact : align bytes.length 4 - bytes.length = 0 := by
    unfold align
    omega
  rw [padded, exact, List.replicate_zero, List.append_nil]

namespace Pickle

/-- How the block of a pickle is divided: a header that knows the payload size, the payload, and free room. -/
structure Layout (pickle : Pickle) (head payload room : List Byte) : Prop where
  block : pickle.header_ = some (head ++ (payload ++ room))
  header_size : pickle.header_size_ = head.length
  header_least : sizeofHeader ≤ head.length
  header_aligned : head.length % 4 = 0
  size_field : head.take sizeofHeader = encode sizeofHeader payload.length
  capacity : pickle.capacity_after_header_ = payload.length + room.length
  capacity_aligned : pickle.capacity_after_header_ % 64 = 0
  write_offset : pickle.write_offset_ = payload.length
  payload_aligned : payload.length % 4 = 0

/-- The payload a pickle holds, after a header of `header_size` bytes. -/
def Holds (pickle : Pickle) (header_size : Nat) (payload : List Byte) : Prop :=
  ∃ head room, Layout pickle head payload room ∧ head.length = header_size

section Writing
variable (garbage : Nat → Nat → Byte)

theorem realloc_grow {block : List Byte} {size : Nat} (grows : block.length ≤ size) :
    ∃ fresh, realloc garbage block size = block ++ fresh ∧ block.length + fresh.length = size := by
  refine ⟨(List.range (size - block.length)).map (garbage size), ?_, ?_⟩
  · rw [realloc, List.take_of_length_le grows]
  · rw [List.length_map, List.length_range]
    omega

theorem Layout.resize {pickle : Pickle} {head payload room : List Byte} (layout : Layout pickle head payload room)
    (new_capacity : Nat) (grows : pickle.capacity_after_header_ ≤ new_capacity) :
    ∃ larger more, pickle.resize garbage new_capacity = some larger ∧ Layout larger head payload more ∧
      new_capacity ≤ larger.capacity_after_header_ := by
  have aligned := align_payloadUnit new_capacity
  have writable : pickle.capacity_after_header_ ≠ kCapacityReadOnly := by
    have multiple := layout.capacity_aligned
    unfold kCapacityReadOnly
    omega
  have length : (head ++ (payload ++ room)).length ≤ head.length + align new_capacity kPayloadUnit := by
    have capacity := layout.capacity
    rw [List.length_append, List.length_append]
    omega
  obtain ⟨fresh, grown, total⟩ := realloc_grow garbage length
  rw [List.length_append, List.length_append] at total
  refine ⟨_, room ++ fresh, if_neg writable, ?_, aligned.1⟩
  exact {
    block := by
      rw [layout.block, layout.header_size, Option.getD_some, grown]
      simp only [List.append_assoc]
    header_size := layout.header_size
    header_least := layout.header_least
    header_aligned := layout.header_aligned
    size_field := layout.size_field
    capacity := by
      change align new_capacity kPayloadUnit = payload.length + (room ++ fresh).length
      rw [List.length_append]
      omega
    capacity_aligned := aligned.2
    write_offset := layout.write_offset
    payload_aligned := layout.payload_aligned }

theorem Layout.makeRoom {pickle : Pickle} {head payload room : List Byte} (layout : Layout pickle head payload room)
    (new_size : Nat) :
    ∃ larger more, pickle.makeRoom garbage new_size = some larger ∧ Layout larger head payload more ∧
      new_size ≤ larger.capacity_after_header_ := by
  unfold Pickle.makeRoom
  by_cases full : new_size > pickle.capacity_after_header_
  · rw [if_pos full]
    obtain ⟨larger, more, resized, relaid, enough⟩ := layout.resize garbage (max _ new_size)
      (Nat.le_trans (Nat.le_of_lt full) (Nat.le_max_right _ _))
    exact ⟨larger, more, resized, relaid, Nat.le_trans (Nat.le_max_right _ _) enough⟩
  · rw [if_neg full]
    exact ⟨pickle, room, rfl, layout, Nat.le_of_not_gt full⟩

theorem split_room {room : List Byte} {first second : Nat} (enough : first + second ≤ room.length) :
    ∃ front middle back, room = front ++ (middle ++ back) ∧ front.length = first ∧ middle.length = second := by
  refine ⟨room.take first, (room.drop first).take second, (room.drop first).drop second, ?_, ?_, ?_⟩
  · rw [List.take_append_drop, List.take_append_drop]
  · rw [List.length_take]
    omega
  · rw [List.length_take, List.length_drop]
    omega

/-- The three stores of a write: the padding, the size in the header, and the bytes themselves. -/
theorem overwrite_field (head payload front middle back bytes padding size_field : List Byte)
    (sizeLength : size_field.length = sizeofHeader) (least : sizeofHeader ≤ head.length)
    (frontLength : bytes.length = front.length) (middleLength : padding.length = middle.length) :
    overwrite (overwrite (overwrite (head ++ (payload ++ (front ++ (middle ++ back))))
        (head.length + payload.length + bytes.length) padding) 0 size_field)
      (head.length + payload.length) bytes =
    (size_field ++ head.drop sizeofHeader) ++ ((payload ++ (bytes ++ padding)) ++ back) := by
  have first : overwrite (head ++ (payload ++ (front ++ (middle ++ back))))
      (head.length + payload.length + bytes.length) padding =
      head ++ (payload ++ (front ++ (padding ++ back))) := by
    have stored := overwrite_append (head ++ (payload ++ front)) middle padding back middleLength
    simpa only [List.append_assoc, List.length_append, frontLength, Nat.add_assoc] using stored
  have second : overwrite (head ++ (payload ++ (front ++ (padding ++ back)))) 0 size_field =
      size_field ++ (head.drop sizeofHeader ++ (payload ++ (front ++ (padding ++ back)))) := by
    have taken : size_field.length = (head.take sizeofHeader).length := by
      rw [List.length_take, sizeLength, Nat.min_eq_left least]
    have stored := overwrite_append [] (head.take sizeofHeader) size_field
      (head.drop sizeofHeader ++ (payload ++ (front ++ (padding ++ back)))) taken
    rwa [List.nil_append, ← List.append_assoc, List.take_append_drop, List.nil_append] at stored
  have kept : (size_field ++ (head.drop sizeofHeader ++ payload)).length = head.length + payload.length := by
    rw [List.length_append, List.length_append, List.length_drop, sizeLength]
    omega
  have third := overwrite_append (size_field ++ (head.drop sizeofHeader ++ payload)) front bytes (padding ++ back)
    frontLength
  rw [kept] at third
  rw [first, second]
  simpa only [List.append_assoc] using third

/-- Writing bytes appends them to the payload, zeros after them, and updates the header. -/
theorem Holds.writeBytesCommon {pickle : Pickle} {header_size : Nat} {payload : List Byte}
    (holds : Holds pickle header_size payload) (bytes : List Byte) :
    ∃ later, Pickle.writeBytesCommon garbage bytes bytes.length pickle = some ((), later) ∧
      Holds later header_size (payload ++ padded bytes) := by
  obtain ⟨head, room, layout, rfl⟩ := holds
  have aligned := align_four bytes.length
  obtain ⟨larger, more, made, relaid, enough⟩ :=
    layout.makeRoom garbage (pickle.write_offset_ + align bytes.length 4)
  have offset := layout.write_offset
  have capacity := relaid.capacity
  obtain ⟨front, middle, back, rfl, frontLength, middleLength⟩ :=
    split_room (show bytes.length + (align bytes.length 4 - bytes.length) ≤ more.length by omega)
  have new_size : pickle.write_offset_ + align bytes.length 4 = (payload ++ padded bytes).length := by
    rw [List.length_append, length_padded, offset]
  have stored := overwrite_field head payload front middle back bytes
    (List.replicate (align bytes.length 4 - bytes.length) 0)
    (encode sizeofHeader (payload ++ padded bytes).length) (length_encode _ _) relaid.header_least
    frontLength.symm (List.length_replicate.trans middleLength.symm)
  rw [← padded] at stored
  have wrote : Pickle.writeBytesCommon garbage bytes bytes.length pickle =
      some ((), { larger with
        header_ := some ((encode sizeofHeader (payload ++ padded bytes).length ++ head.drop sizeofHeader) ++
          ((payload ++ padded bytes) ++ back))
        write_offset_ := (payload ++ padded bytes).length }) := by
    rw [Pickle.writeBytesCommon, claimUninitializedBytesInternal, made]
    simp only [Option.bind_eq_bind, Option.bind_some, Option.pure_def, if_pos (Nat.le_refl bytes.length),
      List.take_length, setPayloadSize, relaid.block, relaid.header_size, relaid.write_offset, Option.map_some,
      new_size, stored]
  have headLength : (encode sizeofHeader (payload ++ padded bytes).length ++ head.drop sizeofHeader).length =
      head.length := by
    have least := relaid.header_least
    rw [List.length_append, length_encode, List.length_drop]
    omega
  refine ⟨_, wrote, _, back, ?_, headLength⟩
  exact {
    block := rfl
    header_size := relaid.header_size.trans headLength.symm
    header_least := headLength ▸ relaid.header_least
    header_aligned := headLength ▸ relaid.header_aligned
    size_field := List.take_left' (length_encode _ _)
    capacity := by
      change larger.capacity_after_header_ = _
      rw [capacity, List.length_append, List.length_append, List.length_append, length_padded]
      omega
    capacity_aligned := relaid.capacity_aligned
    write_offset := rfl
    payload_aligned := by
      have before := relaid.payload_aligned
      rw [List.length_append, length_padded]
      omega }

theorem new_holds {header_size : Nat} (least : sizeofHeader ≤ header_size) :
    ∃ pickle, Pickle.new garbage header_size = some pickle ∧ Holds pickle (align header_size 4) [] := by
  have aligned := align_four header_size
  have unit : align kPayloadUnit kPayloadUnit = 64 := by decide
  have writable : (0 : Nat) ≠ kCapacityReadOnly := by decide
  have empty : ([] : List Byte).length ≤ align header_size 4 + 64 := Nat.zero_le _
  obtain ⟨fresh, grown, total⟩ := realloc_grow garbage empty
  rw [List.nil_append] at grown
  rw [List.length_nil, Nat.zero_add] at total
  obtain ⟨size_field, rest, room, rfl, fieldLength, restLength⟩ :=
    split_room (show sizeofHeader + (align header_size 4 - sizeofHeader) ≤ fresh.length by omega)
  have stored := overwrite_append [] size_field (encode sizeofHeader 0) (rest ++ room)
    ((length_encode _ _).trans fieldLength.symm)
  simp only [List.nil_append, List.length_nil] at stored
  have made : Pickle.new garbage header_size = some
      ⟨some (encode sizeofHeader 0 ++ (rest ++ room)), align header_size 4, 64, 0⟩ := by
    simp only [Pickle.new, Pickle.resize, if_neg writable, Option.map_some, setPayloadSize, Option.getD_none, unit,
      grown, stored]
  have headLength : (encode sizeofHeader 0 ++ rest).length = align header_size 4 := by
    rw [List.length_append, length_encode]
    omega
  refine ⟨_, made, encode sizeofHeader 0 ++ rest, room, ?_, headLength⟩
  exact {
    block := by rw [List.nil_append, List.append_assoc]
    header_size := headLength.symm
    header_least := by omega
    header_aligned := by omega
    size_field := List.take_left' (length_encode _ _)
    capacity := by
      rw [List.length_append, List.length_append] at total
      change 64 = 0 + room.length
      omega
    capacity_aligned := Nat.mod_self 64
    write_offset := rfl
    payload_aligned := rfl }

/-- Only the bytes that are copied matter. -/
theorem writeBytesCommon_take {data : List Byte} {length : Nat} (fits : length ≤ data.length) :
    writeBytesCommon garbage data length =
      writeBytesCommon garbage (data.take length) (data.take length).length := by
  unfold writeBytesCommon
  simp only [List.length_take_of_le fits, List.take_take, Nat.min_self, if_pos fits, if_pos (Nat.le_refl _)]

/-- `writer` succeeds and appends `bytes` to the payload. -/
def Appends (writer : Writer Bool) (bytes : List Byte) : Prop :=
  ∀ pickle header_size payload, Holds pickle header_size payload →
    ∃ later, writer pickle = some (true, later) ∧ Holds later header_size (payload ++ bytes)

theorem appends_writePOD (count value : Nat) : Appends (writePOD garbage count value) (padded (encode count value)) := by
  intro pickle header_size payload holds
  obtain ⟨later, wrote, held⟩ := holds.writeBytesCommon garbage (encode count value)
  rw [length_encode] at wrote
  refine ⟨later, ?_, held⟩
  simp only [writePOD, bind, StateT.bind, wrote, Option.bind_some]
  rfl

theorem appends_writeBytes {bytes : List Byte} (short : bytes.length < 2 ^ 31) :
    Appends (writeBytes garbage bytes (BitVec.ofNat 32 bytes.length)) (padded bytes) := by
  have length : ((BitVec.ofNat 32 bytes.length).signExtend 64).toNat = bytes.length := by
    have same := toNat_length short
    rw [(int_of_small (same.symm ▸ short)).2, same]
  intro pickle header_size payload holds
  obtain ⟨later, wrote, held⟩ := holds.writeBytesCommon garbage bytes
  refine ⟨later, ?_, held⟩
  simp only [writeBytes, bind, StateT.bind, length, wrote, Option.bind_some]
  rfl

theorem Appends.andThen {first second : Writer Bool} {front back : List Byte} (one : Appends first front)
    (two : Appends second back) : Appends (Pickle.andThen first second) (front ++ back) := by
  intro pickle header_size payload holds
  obtain ⟨middle, wrote, held⟩ := one pickle header_size payload holds
  obtain ⟨later, wroteMore, heldMore⟩ := two middle header_size _ held
  refine ⟨later, ?_, List.append_assoc payload front back ▸ heldMore⟩
  simp only [Pickle.andThen, bind, StateT.bind, wrote, Option.bind_some, if_true]
  exact wroteMore

end Writing
end Pickle

namespace PickleValue

/-- The part of the payload that a value takes. -/
def encoding : PickleValue → List Byte
  | bool value => encode 4 (if value then 1 else 0)
  | int value => encode 4 value.toNat
  | uint16 value => padded (encode 2 value.toNat)
  | uint32 value => encode 4 value.toNat
  | int64 value => encode 8 value.toNat
  | uint64 value => encode 8 value.toNat
  | sizeT value => encode 8 value.toNat
  | string value => encode 4 value.length ++ padded value
  | string16 value => encode 4 value.length ++ padded (Pickle.bytesOf16 value)
  | data value => encode 4 value.length ++ padded value
  | bytes value => padded value

/-- The bytes a caller hands over, whose number is an `int`. -/
def contents : PickleValue → List Byte
  | string value => value
  | string16 value => Pickle.bytesOf16 value
  | data value => value
  | bytes value => value
  | _ => []

theorem length_bytesOf16 (value : List (BitVec 16)) : (Pickle.bytesOf16 value).length = 2 * value.length := by
  induction value with
  | nil => rfl
  | cons unit rest ih =>
    rw [Pickle.bytesOf16, List.flatMap_cons, List.length_append, length_encode, List.length_cons]
    rw [Pickle.bytesOf16] at ih
    omega

section Writing
variable (garbage : Nat → Nat → Byte)
open Pickle

theorem appends_word (count value : Nat) (aligned : count % 4 = 0) :
    Appends (writePOD garbage count value) (encode count value) := by
  have appends := appends_writePOD garbage count value
  rwa [padded_of_aligned ((length_encode _ _).symm ▸ aligned)] at appends

theorem appends_length {length : Nat} (short : length < 2 ^ 31) :
    Appends (writeInt garbage (BitVec.ofNat 32 length)) (encode 4 length) := by
  have appends := appends_word garbage 4 (BitVec.ofNat 32 length).toNat rfl
  unfold writeInt
  rw [toNat_length short] at appends ⊢
  exact appends

theorem appends_write {value : PickleValue} (short : value.contents.length < 2 ^ 31) :
    Appends (value.write garbage) value.encoding := by
  cases value with
  | bool value => cases value <;> exact appends_word garbage 4 _ rfl
  | int value => exact appends_word garbage 4 _ rfl
  | uint16 value => exact appends_writePOD garbage 2 _
  | uint32 value => exact appends_word garbage 4 _ rfl
  | int64 value => exact appends_word garbage 8 _ rfl
  | uint64 value => exact appends_word garbage 8 _ rfl
  | sizeT value => exact appends_word garbage 8 _ rfl
  | string value => exact (appends_length garbage short).andThen (appends_writeBytes garbage short)
  | string16 value =>
    have length := length_bytesOf16 value
    change (bytesOf16 value).length < 2 ^ 31 at short
    have doubled : BitVec.ofNat 32 value.length * 2 = BitVec.ofNat 32 (bytesOf16 value).length := by
      apply BitVec.eq_of_toNat_eq
      rw [BitVec.toNat_mul, BitVec.toNat_ofNat, BitVec.toNat_ofNat, length]
      change _ % 2 ^ 32 * 2 % 2 ^ 32 = _
      omega
    have body := appends_writeBytes garbage short
    rw [← doubled] at body
    exact (appends_length garbage (by omega)).andThen body
  | data value =>
    have positive : (BitVec.ofNat 32 value.length).toInt ≥ 0 := by
      rw [(int_of_small ((toNat_length short).symm ▸ short)).1]
      exact Int.natCast_nonneg _
    simp only [PickleValue.write, writeData, if_pos positive]
    exact (appends_length garbage short).andThen (appends_writeBytes garbage short)
  | bytes value => exact appends_writeBytes garbage short

theorem appends_writeAll {values : List PickleValue} (short : ∀ value ∈ values, value.contents.length < 2 ^ 31) :
    Appends (writeAll garbage values) (values.flatMap encoding) := by
  induction values with
  | nil =>
    intro pickle header_size payload holds
    exact ⟨pickle, rfl, (List.append_nil payload).symm ▸ holds⟩
  | cons value rest ih =>
    have first := appends_write garbage (short value List.mem_cons_self)
    exact first.andThen (ih fun value member => short value (List.mem_cons_of_mem _ member))

end Writing
end PickleValue
end Libchrome.Base
