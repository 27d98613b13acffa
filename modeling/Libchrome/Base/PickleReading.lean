import Libchrome.Base.PickleWriting

/-! Every read takes the encoding of its value off the bytes that are still ahead. -/

namespace Libchrome.Base
open Library.Bytes
namespace PickleIterator

/-- The bytes between the read pointer and the end of the payload. -/
structure Ahead (iterator : PickleIterator) (bytes : List Byte) : Prop where
  ordered : iterator.read_index_ ≤ iterator.end_index_
  inside : iterator.end_index_ ≤ iterator.payload_.length
  same : (iterator.payload_.drop iterator.read_index_).take (iterator.end_index_ - iterator.read_index_) = bytes

variable {iterator : PickleIterator} {bytes : List Byte}

theorem Ahead.length (ahead : Ahead iterator bytes) : iterator.end_index_ - iterator.read_index_ = bytes.length := by
  have inside := ahead.inside
  rw [← ahead.same, List.length_take, List.length_drop]
  omega

theorem Ahead.current (ahead : Ahead iterator bytes) {size : Nat} (enough : size ≤ bytes.length) :
    iterator.current size = bytes.take size := by
  have length := ahead.length
  rw [PickleIterator.current, ← ahead.same, List.take_take, Nat.min_eq_left (by omega)]

/-- Advancing drops an aligned number of bytes, or all that are left. -/
theorem Ahead.advance (ahead : Ahead iterator bytes) (size : Nat) :
    Ahead (iterator.advance size) (bytes.drop (align size 4)) := by
  have length := ahead.length
  have ordered := ahead.ordered
  have inside := ahead.inside
  unfold PickleIterator.advance
  by_cases short : iterator.end_index_ - iterator.read_index_ < align size 4
  · rw [if_pos short]
    refine ⟨Nat.le_refl _, inside, ?_⟩
    rw [Nat.sub_self, List.take_zero, List.drop_of_length_le (by omega)]
  · rw [if_neg short]
    refine ⟨show iterator.read_index_ + align size 4 ≤ iterator.end_index_ by omega, inside, ?_⟩
    rw [← ahead.same, List.drop_take, List.drop_drop, Nat.sub_sub]

section Reading
variable {α β : Type}

/-- `reader` takes `bytes` off what is ahead and returns `value`. -/
def Reads (reader : Reader α) (bytes : List Byte) (value : α) : Prop :=
  ∀ iterator rest, Ahead iterator (bytes ++ rest) →
    ∃ later, reader iterator = (some value, later) ∧ Ahead later rest

/-- `reader` fails when nothing is ahead. -/
def FailsAtEnd (reader : Reader α) : Prop := ∀ iterator, Ahead iterator [] → (reader iterator).1 = none

theorem bind_apply (reader : Reader α) (next : α → Reader β) (iterator : PickleIterator) :
    (reader >>= next) iterator =
      match reader iterator with
      | (some value, later) => next value later
      | (none, later) => (none, later) := by
  change (match reader iterator with
    | (result, later) => (match result with
      | some value => next value
      | none => pure none : StateM PickleIterator (Option β)) later) = _
  cases reader iterator with
  | mk result later => cases result <;> rfl

variable {reader : Reader α}

theorem Reads.bind {next : α → Reader β} {front back : List Byte} {first : α} {second : β}
    (one : Reads reader front first) (two : Reads (next first) back second) :
    Reads (reader >>= next) (front ++ back) second := by
  intro iterator rest ahead
  rw [List.append_assoc] at ahead
  obtain ⟨middle, read, left⟩ := one iterator (back ++ rest) ahead
  obtain ⟨later, readMore, leftMore⟩ := two middle rest left
  refine ⟨later, ?_, leftMore⟩
  rw [bind_apply, read]
  exact readMore

variable {bytes : List Byte}

theorem Reads.map {value : α} (reads : Reads reader bytes value) (convert : α → β) :
    Reads (do return convert (← reader)) bytes (convert value) := by
  intro iterator rest ahead
  obtain ⟨later, read, left⟩ := reads iterator rest ahead
  refine ⟨later, ?_, left⟩
  rw [bind_apply, read]
  rfl

theorem FailsAtEnd.bind (fails : FailsAtEnd reader) (next : α → Reader β) : FailsAtEnd (reader >>= next) := by
  intro iterator ahead
  have failed := fails iterator ahead
  rw [bind_apply]
  cases read : reader iterator with
  | mk result later =>
    rw [read] at failed
    cases failed
    rfl

theorem reads_type {size : Nat} (filled : bytes.length = align size 4) :
    Reads (getTypeAndAdvance size) bytes (bytes.take size) := by
  intro iterator rest ahead
  have aligned := align_four size
  have length := ahead.length
  rw [List.length_append] at length
  have enough : size ≤ (bytes ++ rest).length := by
    rw [List.length_append]
    omega
  refine ⟨iterator.advance size, ?_, ?_⟩
  · rw [getTypeAndAdvance, if_neg (by omega), ahead.current enough, List.take_append_of_le_length (by omega)]
  · have left := ahead.advance size
    rwa [List.drop_left' filled] at left

theorem failsAtEnd_type {size : Nat} (positive : 0 < size) : FailsAtEnd (getTypeAndAdvance size) := by
  intro iterator ahead
  have length := ahead.length
  rw [List.length_nil] at length
  rw [getTypeAndAdvance, if_pos (by omega)]

theorem reads_bytes (short : bytes.length < 2 ^ 31) :
    Reads (getBytesAndAdvance (BitVec.ofNat 32 bytes.length)) (padded bytes) bytes := by
  intro iterator rest ahead
  have same := toNat_length short
  have ⟨positive, extended⟩ := int_of_small (same.symm ▸ short)
  have length := ahead.length
  rw [List.length_append, length_padded] at length
  have aligned := align_four bytes.length
  have present : ¬((BitVec.ofNat 32 bytes.length).toInt < 0 ∨ iterator.end_index_ - iterator.read_index_ <
      ((BitVec.ofNat 32 bytes.length).signExtend 64).toNat) := by
    rw [positive, extended, same]
    omega
  have enough : bytes.length ≤ (padded bytes ++ rest).length := by
    rw [List.length_append, length_padded]
    omega
  refine ⟨iterator.advance bytes.length, ?_, ?_⟩
  · rw [getBytesAndAdvance, if_neg present, same, ahead.current enough, padded, List.append_assoc, List.take_left]
  · have left := ahead.advance bytes.length
    rwa [List.drop_left' (length_padded bytes)] at left

theorem failsAtEnd_bytes {length : BitVec 32} (nonempty : length ≠ 0) : FailsAtEnd (getBytesAndAdvance length) := by
  intro iterator ahead
  have nothing := ahead.length
  rw [List.length_nil] at nothing
  have absent : length.toInt < 0 ∨ iterator.end_index_ - iterator.read_index_ < (length.signExtend 64).toNat := by
    by_cases negative : length.toInt < 0
    · exact .inl negative
    · refine .inr ?_
      have small : length.toNat < 2 ^ 31 := by
        have bounded := length.isLt
        rw [BitVec.toInt_eq_toNat_cond] at negative
        omega
      have positive : length.toNat ≠ 0 := fun zero => nonempty (BitVec.eq_of_toNat_eq zero)
      rw [(int_of_small small).2]
      omega
  rw [getBytesAndAdvance, if_pos absent]

end Reading

theorem reads_builtinType {count : Nat} (filled : bytes.length = align count 4) :
    Reads (readBuiltinType count) bytes (decode (bytes.take count)) := (reads_type filled).map decode

/-- An integer of a whole number of 32-bit words. -/
theorem reads_word {width : Nat} (count : Nat) (fits : 2 ^ width ≤ 256 ^ count) (aligned : count % 4 = 0)
    (value : BitVec width) :
    Reads (do return BitVec.ofNat width (← readBuiltinType count)) (encode count value.toNat) value := by
  have filled : (encode count value.toNat).length = align count 4 := by
    rw [length_encode]
    unfold align
    omega
  have reads := (reads_builtinType filled).map (BitVec.ofNat width)
  rwa [List.take_of_length_le (length_encode _ _).le, ofNat_decode_encode count fits] at reads

theorem reads_int (value : BitVec 32) : Reads readInt (encode 4 value.toNat) value :=
  reads_word 4 (by decide) rfl value

theorem reads_length {length : Nat} (short : length < 2 ^ 31) :
    Reads readInt (encode 4 length) (BitVec.ofNat 32 length) := by
  have reads := reads_int (BitVec.ofNat 32 length)
  rwa [toNat_length short] at reads

theorem reads_bool (value : Bool) : Reads readBool (encode 4 (if value then 1 else 0)) value := by
  have reads := (reads_builtinType (show (encode 4 (if value then 1 else 0)).length = align 1 4 from length_encode _ _)).map fun byte => decide (byte ≠ 0)
  cases value <;> exact reads

theorem reads_uint16 (value : BitVec 16) : Reads readUInt16 (padded (encode 2 value.toNat)) value := by
  have filled : (padded (encode 2 value.toNat)).length = align 2 4 := by rw [length_padded, length_encode]
  have reads := (reads_builtinType filled).map (BitVec.ofNat 16)
  rwa [padded, List.take_left' (length_encode _ _), ofNat_decode_encode 2 (by decide)] at reads

theorem reads_string {value : List Byte} (short : value.length < 2 ^ 31) :
    Reads readString (encode 4 value.length ++ padded value) value :=
  (reads_length short).bind (reads_bytes short)

theorem reads_data {value : List Byte} (short : value.length < 2 ^ 31) :
    Reads readData (encode 4 value.length ++ padded value) value :=
  (reads_length short).bind (reads_bytes short)

theorem unitsOf16_bytesOf16 (value : List (BitVec 16)) : unitsOf16 (Pickle.bytesOf16 value) = value := by
  induction value with
  | nil => rfl
  | cons unit rest ih =>
    have decoded := ofNat_decode_encode 2 (by decide) unit
    rw [Pickle.bytesOf16] at ih ⊢
    rw [List.flatMap_cons]
    exact congrArg₂ List.cons decoded ih

theorem getElementsAndAdvance_eq {count : Nat} (short : 2 * count < 2 ^ 31) :
    getElementsAndAdvance (BitVec.ofNat 32 count) 2 = getBytesAndAdvance (BitVec.ofNat 32 (2 * count)) := by
  have one : count < 2 ^ 31 := by omega
  have elements := (int_of_small ((toNat_length one).symm ▸ one)).1
  have bytes := (int_of_small ((toNat_length short).symm ▸ short)).1
  rw [toNat_length one] at elements
  rw [toNat_length short] at bytes
  have product : (count : Int) * ((2 : Nat) : Int) = ((2 * count : Nat) : Int) := by
    push_cast
    omega
  have converted : BitVec.ofInt 32 ((2 * count : Nat) : Int) = BitVec.ofNat 32 (2 * count) := BitVec.ofInt_natCast _ _
  simp only [getElementsAndAdvance, elements, product, converted, bytes, ne_eq, not_true_eq_false, if_false]

theorem reads_string16 {value : List (BitVec 16)} (short : (Pickle.bytesOf16 value).length < 2 ^ 31) :
    Reads readString16 (encode 4 value.length ++ padded (Pickle.bytesOf16 value)) value := by
  have length := PickleValue.length_bytesOf16 value
  have body := reads_bytes short
  rw [length, ← getElementsAndAdvance_eq (length ▸ short)] at body
  have units := body.map unitsOf16
  rw [unitsOf16_bytesOf16] at units
  exact (reads_length (by omega)).bind units

end PickleIterator

namespace PickleType
open PickleIterator

theorem reads_value {value : PickleValue} (short : value.contents.length < 2 ^ 31) :
    Reads value.type.read value.encoding value := by
  cases value with
  | bool value => exact (reads_bool value).map PickleValue.bool
  | int value => exact (reads_int value).map PickleValue.int
  | uint16 value => exact (reads_uint16 value).map PickleValue.uint16
  | uint32 value => exact (reads_word 4 (by decide) rfl value).map PickleValue.uint32
  | int64 value => exact (reads_word 8 (by decide) rfl value).map PickleValue.int64
  | uint64 value => exact (reads_word 8 (by decide) rfl value).map PickleValue.uint64
  | sizeT value => exact (reads_word 8 (by decide) rfl value).map PickleValue.sizeT
  | string value => exact (reads_string short).map PickleValue.string
  | string16 value => exact (reads_string16 short).map PickleValue.string16
  | data value => exact (reads_data short).map PickleValue.data
  | bytes value => exact (reads_bytes short).map PickleValue.bytes

theorem reads_all {values : List PickleValue} (short : ∀ value ∈ values, value.contents.length < 2 ^ 31) :
    Reads (readAll (values.map PickleValue.type)) (values.flatMap PickleValue.encoding) values := by
  induction values with
  | nil =>
    intro iterator rest ahead
    exact ⟨iterator, rfl, ahead⟩
  | cons value others ih =>
    have first := reads_value (short value List.mem_cons_self)
    have rest := ih fun value member => short value (List.mem_cons_of_mem _ member)
    exact first.bind (rest.map (value :: ·))

theorem failsAtEnd_read {type : PickleType} (demanding : type ≠ .bytes 0) : FailsAtEnd type.read := by
  cases type with
  | bool => exact (failsAtEnd_type Nat.one_pos).bind _ |>.bind _ |>.bind _
  | int => exact (failsAtEnd_type (by decide)).bind _ |>.bind _ |>.bind _
  | uint16 => exact (failsAtEnd_type (by decide)).bind _ |>.bind _ |>.bind _
  | uint32 => exact (failsAtEnd_type (by decide)).bind _ |>.bind _ |>.bind _
  | int64 => exact (failsAtEnd_type (by decide)).bind _ |>.bind _ |>.bind _
  | uint64 => exact (failsAtEnd_type (by decide)).bind _ |>.bind _ |>.bind _
  | sizeT => exact (failsAtEnd_type (by decide)).bind _ |>.bind _ |>.bind _
  | string => exact (failsAtEnd_type (by decide)).bind _ |>.bind _ |>.bind _ |>.bind _
  | string16 => exact (failsAtEnd_type (by decide)).bind _ |>.bind _ |>.bind _ |>.bind _
  | data => exact (failsAtEnd_type (by decide)).bind _ |>.bind _ |>.bind _ |>.bind _
  | bytes length =>
    have nonempty : length ≠ 0 := fun zero => demanding (congrArg bytes zero)
    exact (failsAtEnd_bytes nonempty).bind _

end PickleType
/-! A pickle made from the bytes of another one yields the values written to it. -/

namespace Pickle

variable {pickle : Pickle} {head payload room : List Byte}

section
variable (layout : Layout pickle head payload room)
include layout

theorem Layout.payloadSizeField {more : List Byte}
    (small : payload.length < 2 ^ 32) : Pickle.payloadSizeField (head ++ more) = payload.length := by
  have bounded : payload.length < 256 ^ sizeofHeader := small
  rw [Pickle.payloadSizeField, List.take_append_of_le_length layout.header_least, layout.size_field, decode_encode,
    Nat.mod_eq_of_lt bounded]

theorem Layout.size (small : payload.length < 2 ^ 32) :
    pickle.size = head.length + payload.length := by
  rw [Pickle.size, payload_size, layout.block, layout.header_size]
  exact congrArg (head.length + ·) (layout.payloadSizeField small)

theorem Layout.data (small : payload.length < 2 ^ 32) :
    pickle.data = head ++ payload := by
  rw [Pickle.data, layout.size small, layout.block, Option.getD_some, ← List.append_assoc]
  exact List.take_left' List.length_append

end

variable {header_size : Nat}

theorem Holds.payload_size_eq (holds : Holds pickle header_size payload) (small : payload.length < 2 ^ 32) :
    pickle.payload_size = payload.length := by
  obtain ⟨head, room, layout, -⟩ := holds
  rw [Pickle.payload_size, layout.block]
  exact layout.payloadSizeField small

/-- A pickle that can be written to is read in place. -/
theorem Holds.ahead_new (holds : Holds pickle header_size payload) (small : payload.length < 2 ^ 32) :
    PickleIterator.Ahead (PickleIterator.new pickle) payload := by
  obtain ⟨head, room, layout, rfl⟩ := holds
  have body : PickleIterator.new pickle = ⟨payload ++ room, 0, payload.length⟩ := by
    rw [PickleIterator.new, Pickle.payload, Pickle.payload_size, layout.block, layout.header_size]
    simp only [Option.getD_some, List.drop_left, layout.payloadSizeField small]
  rw [body]
  refine ⟨Nat.zero_le _, ?_, ?_⟩
  · rw [List.length_append]
    exact Nat.le_add_right _ _
  · rw [List.drop_zero, Nat.sub_zero, List.take_left]

/-- The constructor deduces the header size when the data length is that of the data. -/
theorem Layout.ofData (layout : Layout pickle head payload room) (small : head.length + payload.length < 2 ^ 31) :
    Pickle.ofData (head ++ payload) (BitVec.ofNat 32 (head.length + payload.length)) =
      ⟨some (head ++ payload), head.length, kCapacityReadOnly, 0⟩ := by
  have least : 4 ≤ head.length := layout.header_least
  have aligned := layout.header_aligned
  have field : Pickle.payloadSizeField (head ++ payload) = payload.length := layout.payloadSizeField (by omega)
  have length := toNat_length small
  have positive := (int_of_small (length.symm ▸ small)).1
  rw [length] at positive
  have deduced : (BitVec.ofNat 32 (head.length + payload.length) - BitVec.ofNat 32 payload.length).toNat =
      head.length := by
    rw [BitVec.toNat_sub, length, BitVec.toNat_ofNat]
    omega
  have already : align head.length 4 = head.length := by
    unfold align
    omega
  have counted : ((head.length + payload.length : Nat) : Int) ≥ (sizeofHeader : Nat) := by
    change ((head.length + payload.length : Nat) : Int) ≥ (4 : Nat)
    omega
  simp only [Pickle.ofData, field, positive, if_pos counted, deduced, length, already, ne_eq, not_true_eq_false,
    if_false, if_neg (show ¬head.length > head.length + payload.length by omega),
    if_neg (show ¬head.length = 0 by omega)]

/-- A length that is negative as an `int`, or too short for a header, leaves nothing to read. -/
theorem ahead_ofData_short (data : List Byte) {data_len : BitVec 32} (short : data_len.toInt < sizeofHeader) :
    PickleIterator.Ahead (PickleIterator.new (Pickle.ofData data data_len)) [] := by
  have null : Pickle.ofData data data_len = ⟨none, 0, kCapacityReadOnly, 0⟩ := by
    have rounded : align 0 4 = 0 := rfl
    simp only [Pickle.ofData, if_neg (Int.not_le.2 short), Nat.not_lt_zero, gt_iff_lt, if_false, rounded, ne_eq,
      not_true_eq_false, if_true]
  rw [null]
  exact ⟨Nat.le_refl _, Nat.zero_le _, rfl⟩

theorem Holds.ahead (holds : Holds pickle header_size payload) (small : header_size + payload.length < 2 ^ 31) :
    PickleIterator.Ahead
      (PickleIterator.new (Pickle.ofData pickle.data (BitVec.ofNat 32 pickle.size))) payload := by
  obtain ⟨head, room, layout, rfl⟩ := holds
  have below : payload.length < 2 ^ 32 := by omega
  have field : Pickle.payloadSizeField (head ++ payload) = payload.length := layout.payloadSizeField below
  rw [layout.data below, layout.size below, layout.ofData small]
  have body : (PickleIterator.new ⟨some (head ++ payload), head.length, kCapacityReadOnly, 0⟩) =
      ⟨payload, 0, payload.length⟩ := by
    simp only [PickleIterator.new, Pickle.payload, Pickle.payload_size, Option.getD_some, List.drop_left, field]
  rw [body]
  refine ⟨Nat.zero_le _, Nat.le_refl _, ?_⟩
  rw [List.drop_zero, Nat.sub_zero, List.take_length]

end Pickle

/-- The size of a pickle with the given values, header included. -/
def totalSize (header_size : Nat) (values : List PickleValue) : Nat :=
  align header_size 4 + (values.flatMap PickleValue.encoding).length

/-- All writes succeed; the same reads from a pickle over the bytes return the values, and nothing after them. -/
def RoundTrips (garbage : Nat → Nat → Byte) (header_size : Nat) (values : List PickleValue) : Prop :=
  ∃ fresh written, Pickle.new garbage header_size = some fresh ∧
    PickleValue.writeAll garbage values fresh = some (true, written) ∧
    written.size = totalSize header_size values ∧
    ∃ iterator, PickleType.readAll (values.map PickleValue.type)
        (PickleIterator.new (Pickle.ofData written.data (BitVec.ofNat 32 written.size))) = (some values, iterator) ∧
      ∀ type : PickleType, type ≠ .bytes 0 → (type.read iterator).1 = none

theorem length_contents_le (value : PickleValue) : value.contents.length ≤ value.encoding.length := by
  cases value with
  | string value | data value | bytes value =>
    have aligned := align_four value.length
    simp only [PickleValue.contents, PickleValue.encoding, List.length_append, length_encode, length_padded]
    omega
  | string16 value =>
    have aligned := align_four (Pickle.bytesOf16 value).length
    simp only [PickleValue.contents, PickleValue.encoding, List.length_append, length_encode, length_padded]
    omega
  | _ => exact Nat.zero_le _

variable {header_size : Nat}

theorem short_of_total {values : List PickleValue} (small : totalSize header_size values < 2 ^ 31) :
    ∀ value ∈ values, value.contents.length < 2 ^ 31 := by
  intro value member
  have least := length_contents_le value
  have part : value.encoding.length ≤ (values.flatMap PickleValue.encoding).length := by
    rw [List.flatMap_def]
    exact (List.sublist_flatten_of_mem (List.mem_map_of_mem member)).length_le
  unfold totalSize at small
  omega

/-- Writing succeeds whatever the total size, if every length is an `int`. -/
theorem writes (garbage : Nat → Nat → Byte) (least : sizeofHeader ≤ header_size) {values : List PickleValue}
    (short : ∀ value ∈ values, value.contents.length < 2 ^ 31) :
    ∃ fresh written, Pickle.new garbage header_size = some fresh ∧
      PickleValue.writeAll garbage values fresh = some (true, written) ∧
      Pickle.Holds written (align header_size 4) (values.flatMap PickleValue.encoding) := by
  obtain ⟨fresh, made, empty⟩ := Pickle.new_holds garbage least
  obtain ⟨written, wrote, holds⟩ := PickleValue.appends_writeAll garbage short fresh _ _ empty
  exact ⟨fresh, written, made, wrote, holds⟩

theorem Pickle.Holds.size {pickle : Pickle} {payload : List Byte} (holds : Holds pickle header_size payload)
    (small : payload.length < 2 ^ 32) : pickle.size = header_size + payload.length := by
  obtain ⟨head, room, layout, rfl⟩ := holds
  exact layout.size small

theorem Pickle.Holds.length_data {pickle : Pickle} {payload : List Byte} (holds : Holds pickle header_size payload)
    (small : payload.length < 2 ^ 32) : pickle.data.length = pickle.size := by
  obtain ⟨head, room, layout, rfl⟩ := holds
  rw [layout.data small, layout.size small, List.length_append]

/-- Values written to a pickle of less than 2^31 bytes are read back from its data. -/
theorem pickle_roundTrips (garbage : Nat → Nat → Byte) {header_size : Nat} (least : sizeofHeader ≤ header_size)
    {values : List PickleValue} (small : totalSize header_size values < 2 ^ 31) :
    RoundTrips garbage header_size values := by
  have short := short_of_total small
  obtain ⟨fresh, written, made, wrote, holds⟩ := writes garbage least short
  unfold totalSize at small
  have ahead := holds.ahead small
  rw [← List.append_nil (values.flatMap PickleValue.encoding)] at ahead
  obtain ⟨iterator, read, left⟩ := PickleType.reads_all short _ [] ahead
  refine ⟨fresh, written, made, wrote, holds.size (by omega), iterator, read, ?_⟩
  intro type demanding
  exact PickleType.failsAtEnd_read demanding iterator left

/-- A flag, a count, two strings and a run of known length, none of them a multiple of four bytes long. -/
theorem pickle_roundTrips_mixed :
    totalSize 4 [.bool true, .uint16 7, .string [104, 105], .string16 [0x3c0], .bytes [1, 2, 3, 4, 5]] = 36 ∧
      RoundTrips (fun _ _ => 0xff) 4
        [.bool true, .uint16 7, .string [104, 105], .string16 [0x3c0], .bytes [1, 2, 3, 4, 5]] :=
  ⟨by decide, pickle_roundTrips _ (by decide) (by decide)⟩

theorem totalSize_data {value : List Byte} (length : value.length = 2 ^ 31 - 2) :
    totalSize 4 [.data value] = 2 ^ 31 + 8 := by
  have aligned : align (2 ^ 31 - 2) 4 = 2 ^ 31 := by decide
  have header : align 4 4 = 4 := rfl
  simp only [totalSize, List.flatMap_cons, List.flatMap_nil, List.append_nil, PickleValue.encoding,
    List.length_append, length_encode, length_padded, length, aligned, header]
  omega

theorem not_roundTrips_of_large (garbage : Nat → Nat → Byte) {value : List Byte} (length : value.length = 2 ^ 31 - 2) :
    ¬RoundTrips garbage 4 [.data value] := by
  rintro ⟨fresh, written, made, wrote, size, iterator, read, _⟩
  have total := totalSize_data length
  have negative : (BitVec.ofNat 32 written.size).toInt < sizeofHeader := by
    rw [size, total]
    decide
  have fails : PickleIterator.FailsAtEnd (PickleType.readAll ([.data value].map PickleValue.type)) :=
    (PickleType.failsAtEnd_read (show PickleType.data ≠ .bytes 0 by decide)).bind _
  have failed := fails _ (Pickle.ahead_ofData_short written.data negative)
  rw [read] at failed
  cases failed

/-- So totals below 2^32 with lengths below INT_MAX are not enough. -/
theorem not_roundTrips_below_uint32 :
    ¬∀ values : List PickleValue, totalSize 4 values < 2 ^ 32 →
      (∀ value ∈ values, value.contents.length < 2 ^ 31 - 1) → RoundTrips (fun _ _ => 0) 4 values := by
  intro always
  have length : (List.replicate (2 ^ 31 - 2) (0 : Byte)).length = 2 ^ 31 - 2 := List.length_replicate
  generalize List.replicate (2 ^ 31 - 2) (0 : Byte) = value at length
  have total := totalSize_data length
  apply not_roundTrips_of_large (fun _ _ => 0) length
  apply always [.data value]
  · omega
  · intro other member
    rw [List.mem_singleton.1 member]
    exact lt_of_eq_of_lt length (by decide)

end Libchrome.Base
