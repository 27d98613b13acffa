import Libchrome.Base.PickleReading
import Libchrome.Library.Machine

/-!
# The reads of an iterator as accesses to the payload

Every read goes through one pointer and one length. The reads that `PickleIterator` has in terms of their values are
these with the bytes looked up.
-/

namespace Libchrome.Base
open Library.Bytes
namespace PickleIterator

/-- A pointer into the payload, by its offset, with a length. -/
structure Span where
  offset : Nat
  length : Nat
  deriving DecidableEq, Repr

def Span.bytes (payload : List Byte) (span : Span) : List Byte := (payload.drop span.offset).take span.length

/-- `read_index_ = end_index_`. -/
def park (iterator : PickleIterator) : PickleIterator := { iterator with read_index_ := iterator.end_index_ }

/-- `GetReadPointerAndAdvance<Type>()`. -/
def typeSpan (size : Nat) : Reader Span := fun iterator =>
  if size > iterator.end_index_ - iterator.read_index_ then (none, iterator.park)
  else (some ⟨iterator.read_index_, size⟩, iterator.advance size)

/-- `GetReadPointerAndAdvance(int num_bytes)`. -/
def bytesSpan (num_bytes : BitVec 32) : Reader Span := fun iterator =>
  if num_bytes.toInt < 0 ∨ iterator.end_index_ - iterator.read_index_ < (num_bytes.signExtend 64).toNat then
    (none, iterator.park)
  else (some ⟨iterator.read_index_, num_bytes.toNat⟩, iterator.advance num_bytes.toNat)

/-- `num_elements * size_element` is no `int`. -/
def Overflows (num_elements : BitVec 32) (size_element : Nat) : Prop :=
  num_elements.toInt * size_element ≠ (BitVec.ofInt 32 (num_elements.toInt * size_element)).toInt

instance (num_elements : BitVec 32) (size_element : Nat) : Decidable (Overflows num_elements size_element) :=
  inferInstanceAs (Decidable (_ ≠ _))

/-- `GetReadPointerAndAdvance(int num_elements, size_t size_element)`. -/
def elementsSpan (num_elements : BitVec 32) (size_element : Nat) : Reader Span :=
  if Overflows num_elements size_element then failure
  else bytesSpan (BitVec.ofInt 32 (num_elements.toInt * size_element))

/-- `ReadLength`, with the place of the `int`. -/
def lengthSpan : Reader Span := fun iterator =>
  match readInt iterator with
  | (some value, later) => (if value.toInt ≥ 0 then some ⟨iterator.read_index_, 4⟩ else none, later)
  | (none, later) => (none, later)

end PickleIterator

/-- The reads of a `PickleIterator`. A `long` has 64 bits. -/
inductive ReadCall where
  | bool
  | int
  | long
  | uint16
  | uint32
  | int64
  | uint64
  | sizeT
  | float
  | double
  | string
  | stringPiece
  | string16
  | stringPiece16
  | data
  | bytes (length : BitVec 32)
  | length
  | skipBytes (num_bytes : BitVec 32)
  deriving DecidableEq, Repr

namespace ReadCall
open PickleIterator

/-- The pointer and the length that a call which returns true has used for its result. -/
def exec : ReadCall → Reader Span
  | bool => typeSpan 1
  | uint16 => typeSpan 2
  | int | uint32 | float => typeSpan 4
  | long | int64 | uint64 | sizeT | double => typeSpan 8
  | string | stringPiece | data => do bytesSpan (← readInt)
  | string16 | stringPiece16 => do elementsSpan (← readInt) 2
  | bytes num_bytes => bytesSpan num_bytes
  | length => lengthSpan
  | skipBytes num_bytes => bytesSpan num_bytes

/-- The call reads a byte at least. -/
def Demands : ReadCall → Prop
  | bytes num_bytes => 0 < num_bytes.toInt
  | skipBytes num_bytes => 0 < num_bytes.toInt
  | _ => True

/-- One call on an iterator, whatever it returns. -/
def step (iterator : PickleIterator) (call : ReadCall) : Option PickleIterator := some (call.exec iterator).2

/-- The iterators that calls, one after the other, make of an iterator. -/
abbrev Reached : PickleIterator → PickleIterator → Prop := Library.Reaches step fun _ _ => True

end ReadCall

namespace PickleIterator
variable {α β : Type}

/-!
# No read leaves the payload, and which failures last

Every call keeps the read pointer at or before the end, and hands out spans that end there at the latest. A call
that fails leaves the pointer at the end, but for two branches, which return without touching it.
-/

/-- What every read makes of an iterator. -/
structure Kept (before after : PickleIterator) : Prop where
  payload : after.payload_ = before.payload_
  end_index : after.end_index_ = before.end_index_
  ordered : after.read_index_ ≤ after.end_index_

theorem Kept.trans {first second third : PickleIterator} (one : Kept first second) (two : Kept second third) :
    Kept first third :=
  ⟨two.payload.trans one.payload, two.end_index.trans one.end_index, two.ordered⟩

theorem kept_park (iterator : PickleIterator) : Kept iterator iterator.park := ⟨rfl, rfl, Nat.le_refl _⟩

theorem kept_advance {iterator : PickleIterator} (ordered : iterator.read_index_ ≤ iterator.end_index_) (size : Nat) :
    Kept iterator (iterator.advance size) := by
  unfold advance
  dsimp only
  split
  · exact kept_park iterator
  · refine ⟨rfl, rfl, ?_⟩
    dsimp only
    omega

/-- The reader keeps iterators, and `Good` holds of what it returns. -/
def Safe (Good : PickleIterator → α → Prop) (reader : Reader α) : Prop :=
  ∀ iterator, iterator.read_index_ ≤ iterator.end_index_ →
    Kept iterator (reader iterator).2 ∧ ∀ result, (reader iterator).1 = some result → Good iterator result

/-- The span ends where the payload does, at the latest. -/
def Inside (iterator : PickleIterator) (span : Span) : Prop := span.offset + span.length ≤ iterator.end_index_

theorem safe_type (size : Nat) : Safe Inside (typeSpan size) := by
  intro iterator ordered
  unfold typeSpan
  split
  next => exact ⟨kept_park iterator, nofun⟩
  next enough =>
    refine ⟨kept_advance ordered size, fun span same => ?_⟩
    cases same
    unfold Inside
    dsimp only
    omega

theorem safe_bytes (num_bytes : BitVec 32) : Safe Inside (bytesSpan num_bytes) := by
  intro iterator ordered
  unfold bytesSpan
  split
  next => exact ⟨kept_park iterator, nofun⟩
  next enough =>
    refine ⟨kept_advance ordered _, fun span same => ?_⟩
    cases same
    have small : num_bytes.toNat < 2 ^ 31 := by
      have nonneg := (not_or.mp enough).1
      rw [BitVec.toInt_eq_toNat_cond] at nonneg
      have := num_bytes.isLt
      omega
    rw [(int_of_small small).2] at enough
    unfold Inside
    dsimp only
    omega

theorem safe_elements (num_elements : BitVec 32) (size_element : Nat) :
    Safe Inside (elementsSpan num_elements size_element) := by
  unfold elementsSpan
  split
  next => exact fun iterator ordered => ⟨⟨rfl, rfl, ordered⟩, nofun⟩
  next => exact safe_bytes _

theorem Safe.bind {reader : Reader α} {next : α → Reader Span} (one : Safe (fun _ _ => True) reader)
    (two : ∀ value, Safe Inside (next value)) : Safe Inside (reader >>= next) := by
  intro iterator ordered
  have first := (one iterator ordered).1
  rw [bind_apply]
  cases read : reader iterator with
  | mk result later =>
    rw [read] at first
    cases result with
    | none => exact ⟨first, nofun⟩
    | some value =>
      have second := two value later first.ordered
      refine ⟨first.trans second.1, fun span same => ?_⟩
      have inside := second.2 span same
      unfold Inside at inside ⊢
      rwa [first.end_index] at inside

theorem readInt_eq (iterator : PickleIterator) :
    readInt iterator =
      if 4 > iterator.end_index_ - iterator.read_index_ then (none, iterator.park)
      else (some (BitVec.ofNat 32 (decode (iterator.current 4))), iterator.advance 4) := by
  change ((do return BitVec.ofNat 32 (← readBuiltinType 4)) : Reader (BitVec 32)) iterator = _
  rw [bind_apply, readBuiltinType, bind_apply, getTypeAndAdvance]
  by_cases short : 4 > iterator.end_index_ - iterator.read_index_
  · rw [if_pos short, if_pos short]
    rfl
  · rw [if_neg short, if_neg short]
    rfl

theorem safe_readInt : Safe (fun _ _ => True) readInt := by
  intro iterator ordered
  rw [readInt_eq]
  split
  · exact ⟨kept_park iterator, nofun⟩
  · exact ⟨kept_advance ordered 4, fun _ _ => trivial⟩

theorem safe_length : Safe Inside lengthSpan := by
  intro iterator ordered
  have int := (safe_readInt iterator ordered).1
  unfold lengthSpan
  rw [readInt_eq] at int ⊢
  by_cases short : 4 > iterator.end_index_ - iterator.read_index_
  · rw [if_pos short] at int ⊢
    exact ⟨int, nofun⟩
  · rw [if_neg short] at int ⊢
    refine ⟨int, fun span same => ?_⟩
    dsimp only at same
    split at same
    · cases same
      unfold Inside
      dsimp only
      omega
    · cases same

end PickleIterator

namespace ReadCall
open PickleIterator

/-- Every call is safe. -/
theorem safe (call : ReadCall) : Safe Inside call.exec := by
  cases call with
  | bool => exact safe_type 1
  | uint16 => exact safe_type 2
  | int => exact safe_type 4
  | uint32 => exact safe_type 4
  | float => exact safe_type 4
  | long => exact safe_type 8
  | int64 => exact safe_type 8
  | uint64 => exact safe_type 8
  | sizeT => exact safe_type 8
  | double => exact safe_type 8
  | string => exact safe_readInt.bind safe_bytes
  | stringPiece => exact safe_readInt.bind safe_bytes
  | data => exact safe_readInt.bind safe_bytes
  | string16 => exact safe_readInt.bind fun len => safe_elements len 2
  | stringPiece16 => exact safe_readInt.bind fun len => safe_elements len 2
  | bytes num_bytes => exact safe_bytes num_bytes
  | length => exact safe_length
  | skipBytes num_bytes => exact safe_bytes num_bytes

theorem Reached.kept {first iterator : PickleIterator} (ordered : first.read_index_ ≤ first.end_index_)
    (reached : Reached first iterator) : Kept first iterator := by
  refine Library.Reaches.invariant (Kept first) ⟨rfl, rfl, ordered⟩ ?_ reached
  intro before call after kept _ moved
  cases moved
  exact kept.trans (call.safe before kept.ordered).1

end ReadCall

namespace Pickle

/-- The header of an accepted block takes what the payload leaves. -/
theorem header_size_ofData {data : List Byte} {data_len : BitVec 32}
    (accepted : (ofData data data_len).header_ ≠ none) :
    (ofData data data_len).header_ = some data ∧
      (ofData data data_len).header_size_ + payloadSizeField data = data_len.toNat ∧
        sizeofHeader ≤ (ofData data data_len).header_size_ ∧ (ofData data data_len).header_size_ % 4 = 0 := by
  have small : payloadSizeField data < 2 ^ 32 := by
    have bound := decode_lt (data.take sizeofHeader)
    have length : (data.take sizeofHeader).length ≤ 4 := List.length_take_le _ _
    exact Nat.lt_of_lt_of_le bound (Nat.pow_le_pow_right (by decide) length)
  have width := data_len.isLt
  have difference : (data_len - BitVec.ofNat 32 (payloadSizeField data)).toNat =
      (2 ^ 32 - payloadSizeField data + data_len.toNat) % 2 ^ 32 := by
    rw [BitVec.toNat_sub, BitVec.toNat_ofNat, Nat.mod_eq_of_lt small]
  unfold ofData at accepted ⊢
  dsimp only at accepted ⊢
  rw [difference] at accepted ⊢
  by_cases long : data_len.toInt ≥ sizeofHeader
  · simp only [if_pos long] at accepted ⊢
    generalize deduced : (2 ^ 32 - payloadSizeField data + data_len.toNat) % 2 ^ 32 = header_size at accepted ⊢
    by_cases past : header_size > data_len.toNat
    · simp only [if_pos past] at accepted
      exact absurd rfl accepted
    · simp only [if_neg past] at accepted ⊢
      by_cases unaligned : header_size ≠ align header_size 4
      · simp only [if_pos unaligned] at accepted
        exact absurd rfl accepted
      · simp only [if_neg unaligned] at accepted ⊢
        by_cases zero : header_size = 0
        · simp only [if_pos zero] at accepted
          exact absurd rfl accepted
        · rw [if_neg zero]
          unfold align at unaligned
          change (4294967296 - payloadSizeField data + data_len.toNat) % 4294967296 = header_size at deduced
          change payloadSizeField data < 4294967296 at small
          exact ⟨rfl, by omega, show 4 ≤ header_size by omega, by omega⟩
  · simp only [if_neg long, ite_self, if_true, ne_eq, not_true_eq_false] at accepted

theorem length_payload_ofData {data : List Byte} {data_len : BitVec 32} (whole : data.length = data_len.toNat)
    (accepted : (ofData data data_len).header_ ≠ none) :
    (ofData data data_len).payload.length = (ofData data data_len).payload_size := by
  obtain ⟨block, total, -, -⟩ := header_size_ofData accepted
  rw [payload, payload_size, block, Option.getD_some, List.length_drop, whole]
  dsimp only
  omega

end Pickle

open PickleIterator ReadCall in
/-- Whatever the bytes of an accepted pickle and whatever calls came before, the read pointer is inside the payload,
and so is every pointer that a call returns, with its length. -/
theorem pickleIterator_inside {data : List Byte} {data_len : BitVec 32} (whole : data.length = data_len.toNat)
    (accepted : (Pickle.ofData data data_len).header_ ≠ none) {iterator : PickleIterator}
    (reached : Reached (PickleIterator.new (Pickle.ofData data data_len)) iterator) :
    iterator.read_index_ ≤ iterator.end_index_ ∧
      iterator.payload_ = (Pickle.ofData data data_len).payload ∧
      iterator.end_index_ = iterator.payload_.length ∧
      ∀ (call : ReadCall) (span : Span), (call.exec iterator).1 = some span →
        span.offset + span.length ≤ iterator.payload_.length := by
  have kept := reached.kept (Nat.zero_le _)
  have whole_payload : iterator.end_index_ = iterator.payload_.length := by
    rw [kept.end_index, kept.payload]
    exact (Pickle.length_payload_ofData whole accepted).symm
  refine ⟨kept.ordered, kept.payload, whole_payload, fun call span returned => ?_⟩
  exact whole_payload ▸ (call.safe iterator kept.ordered).2 span returned

open PickleIterator in
theorem pickleIterator_inside_short :
    let iterator := (ReadCall.uint16.exec (PickleIterator.new (Pickle.ofData [4, 0, 0, 0, 7, 0, 9, 9] 8))).2
    iterator.read_index_ ≤ iterator.end_index_ ∧
      iterator.payload_ = (Pickle.ofData [4, 0, 0, 0, 7, 0, 9, 9] 8).payload ∧
      iterator.end_index_ = iterator.payload_.length ∧
      ∀ (call : ReadCall) (span : Span), (call.exec iterator).1 = some span →
        span.offset + span.length ≤ iterator.payload_.length :=
  pickleIterator_inside rfl (by decide) (.next .start trivial rfl)

namespace ReadCall
open PickleIterator

/-- The call returns false behind the `int` it read, without a look at the read pointer: a negative `ReadLength`, or a
number of UTF-16 units whose bytes are no `int`. There are bytes left. -/
def Unparked (iterator : PickleIterator) : ReadCall → Prop
  | length => 4 < iterator.end_index_ - iterator.read_index_ ∧
      (BitVec.ofNat 32 (decode (iterator.current 4))).toInt < 0
  | string16 | stringPiece16 => 4 < iterator.end_index_ - iterator.read_index_ ∧
      Overflows (BitVec.ofNat 32 (decode (iterator.current 4))) 2
  | _ => False

/-- Every later read of at least one byte fails. -/
def Lasts (iterator : PickleIterator) : Prop :=
  ∀ (later : PickleIterator) (call : ReadCall), Reached iterator later → call.Demands → (call.exec later).1 = none

variable {iterator : PickleIterator}

theorem parked_type {size : Nat} (failed : (typeSpan size iterator).1 = none) :
    (typeSpan size iterator).2.read_index_ = (typeSpan size iterator).2.end_index_ := by
  unfold typeSpan at failed ⊢
  split
  next => rfl
  next enough =>
    rw [if_neg enough] at failed
    cases failed

theorem parked_bytes {num_bytes : BitVec 32} (failed : (bytesSpan num_bytes iterator).1 = none) :
    (bytesSpan num_bytes iterator).2.read_index_ = (bytesSpan num_bytes iterator).2.end_index_ := by
  unfold bytesSpan at failed ⊢
  split
  next => rfl
  next enough =>
    rw [if_neg enough] at failed
    cases failed

theorem advance_four (enough : ¬4 > iterator.end_index_ - iterator.read_index_) :
    iterator.advance 4 = { iterator with read_index_ := iterator.read_index_ + 4 } := by
  unfold advance
  exact if_neg fun short => enough (by simpa [align] using short)

/-- Behind a length that was read, `ReadString` and its like fail with the pointer at the end. -/
theorem parked_string (failed : ((do bytesSpan (← readInt) : Reader Span) iterator).1 = none) :
    ((do bytesSpan (← readInt) : Reader Span) iterator).2.read_index_ =
      ((do bytesSpan (← readInt) : Reader Span) iterator).2.end_index_ := by
  rw [bind_apply, readInt_eq] at failed ⊢
  by_cases short : 4 > iterator.end_index_ - iterator.read_index_
  · rw [if_pos short]
    rfl
  · rw [if_neg short] at failed ⊢
    exact parked_bytes failed

theorem parked_string16_iff (failed : ((do elementsSpan (← readInt) 2 : Reader Span) iterator).1 = none) :
    ((do elementsSpan (← readInt) 2 : Reader Span) iterator).2.read_index_ =
        ((do elementsSpan (← readInt) 2 : Reader Span) iterator).2.end_index_ ↔
      ¬ string16.Unparked iterator := by
  rw [bind_apply, readInt_eq] at failed ⊢
  unfold Unparked
  by_cases short : 4 > iterator.end_index_ - iterator.read_index_
  · rw [if_pos short]
    exact iff_of_true rfl fun unparked => by omega
  · rw [if_neg short] at failed ⊢
    dsimp only at failed ⊢
    unfold elementsSpan at failed ⊢
    by_cases overflows : Overflows (BitVec.ofNat 32 (decode (iterator.current 4))) 2
    · rw [if_pos overflows, advance_four short]
      change iterator.read_index_ + 4 = iterator.end_index_ ↔ _
      simp only [overflows, and_true]
      omega
    · rw [if_neg overflows] at failed ⊢
      exact iff_of_true (parked_bytes failed) fun unparked => overflows unparked.2

theorem parked_length_iff (failed : (lengthSpan iterator).1 = none) :
    (lengthSpan iterator).2.read_index_ = (lengthSpan iterator).2.end_index_ ↔ ¬ length.Unparked iterator := by
  unfold lengthSpan at failed ⊢
  rw [readInt_eq] at failed ⊢
  unfold Unparked
  by_cases short : 4 > iterator.end_index_ - iterator.read_index_
  · rw [if_pos short]
    exact iff_of_true rfl fun unparked => by omega
  · rw [if_neg short] at failed ⊢
    dsimp only at failed ⊢
    have negative : (BitVec.ofNat 32 (decode (iterator.current 4))).toInt < 0 := by
      by_contra nonneg
      rw [if_pos (Int.not_lt.mp nonneg)] at failed
      cases failed
    rw [advance_four short]
    simp only [negative, and_true]
    omega

theorem parked_iff {call : ReadCall} (failed : (call.exec iterator).1 = none) :
    (call.exec iterator).2.read_index_ = (call.exec iterator).2.end_index_ ↔ ¬ call.Unparked iterator := by
  cases call with
  | string => exact iff_of_true (parked_string failed) not_false
  | stringPiece => exact iff_of_true (parked_string failed) not_false
  | data => exact iff_of_true (parked_string failed) not_false
  | string16 => exact parked_string16_iff failed
  | stringPiece16 => exact parked_string16_iff failed
  | bytes num_bytes => exact iff_of_true (parked_bytes failed) not_false
  | length => exact parked_length_iff failed
  | skipBytes num_bytes => exact iff_of_true (parked_bytes failed) not_false
  | _ => exact iff_of_true (parked_type failed) not_false

theorem bytesSpan_parked (parked : iterator.read_index_ = iterator.end_index_) (num_bytes : BitVec 32) :
    (bytesSpan num_bytes iterator).2.read_index_ = (bytesSpan num_bytes iterator).2.end_index_ ∧
      (0 < num_bytes.toInt → (bytesSpan num_bytes iterator).1 = none) := by
  unfold bytesSpan
  split
  next => exact ⟨rfl, fun _ => rfl⟩
  next enough =>
    obtain ⟨nonneg, long⟩ := not_or.mp enough
    have small : num_bytes.toNat < 2 ^ 31 := by
      rw [BitVec.toInt_eq_toNat_cond] at nonneg
      have := num_bytes.isLt
      omega
    obtain ⟨value, size⟩ := int_of_small small
    have zero : num_bytes.toNat = 0 := by omega
    refine ⟨?_, fun positive => absurd positive (by omega)⟩
    unfold advance
    dsimp only
    split
    · rfl
    · dsimp only
      rw [zero, parked]
      rfl

theorem exec_parked (parked : iterator.read_index_ = iterator.end_index_) (call : ReadCall) :
    (call.exec iterator).2.read_index_ = (call.exec iterator).2.end_index_ ∧
      (call.Demands → (call.exec iterator).1 = none) := by
  have nothing : iterator.end_index_ - iterator.read_index_ = 0 := by omega
  have type : ∀ {size : Nat}, 0 < size → typeSpan size iterator = (none, iterator.park) := by
    intro size positive
    exact if_pos (nothing ▸ positive)
  have int : readInt iterator = (none, iterator.park) := by
    rw [readInt_eq]
    exact if_pos (by omega)
  have behind : ∀ next : BitVec 32 → Reader Span, ((do next (← readInt) : Reader Span) iterator) =
      (none, iterator.park) := by
    intro next
    rw [bind_apply, int]
  have fails : ∀ {reader : Reader Span}, reader iterator = (none, iterator.park) →
      (reader iterator).2.read_index_ = (reader iterator).2.end_index_ ∧ (reader iterator).1 = none := by
    intro reader same
    rw [same]
    exact ⟨rfl, rfl⟩
  cases call with
  | bool => exact (fails (type (by decide))).imp_right fun failed _ => failed
  | uint16 => exact (fails (type (by decide))).imp_right fun failed _ => failed
  | int => exact (fails (type (by decide))).imp_right fun failed _ => failed
  | uint32 => exact (fails (type (by decide))).imp_right fun failed _ => failed
  | float => exact (fails (type (by decide))).imp_right fun failed _ => failed
  | long => exact (fails (type (by decide))).imp_right fun failed _ => failed
  | int64 => exact (fails (type (by decide))).imp_right fun failed _ => failed
  | uint64 => exact (fails (type (by decide))).imp_right fun failed _ => failed
  | sizeT => exact (fails (type (by decide))).imp_right fun failed _ => failed
  | double => exact (fails (type (by decide))).imp_right fun failed _ => failed
  | string => exact (fails (behind bytesSpan)).imp_right fun failed _ => failed
  | stringPiece => exact (fails (behind bytesSpan)).imp_right fun failed _ => failed
  | data => exact (fails (behind bytesSpan)).imp_right fun failed _ => failed
  | string16 => exact (fails (behind (elementsSpan · 2))).imp_right fun failed _ => failed
  | stringPiece16 => exact (fails (behind (elementsSpan · 2))).imp_right fun failed _ => failed
  | bytes num_bytes => exact bytesSpan_parked parked num_bytes
  | skipBytes num_bytes => exact bytesSpan_parked parked num_bytes
  | length =>
    have parks : lengthSpan iterator = (none, iterator.park) := by
      unfold lengthSpan
      rw [int]
    exact (fails parks).imp_right fun failed _ => failed

theorem lasts_iff (ordered : iterator.read_index_ ≤ iterator.end_index_) :
    Lasts iterator ↔ iterator.read_index_ = iterator.end_index_ := by
  constructor
  · intro lasts
    by_contra unparked
    have failed : (typeSpan 1 iterator).1 = none := lasts iterator bool .start trivial
    rw [typeSpan, if_neg (by omega)] at failed
    cases failed
  · intro parked later call reached demands
    have still : later.read_index_ = later.end_index_ := by
      refine Library.Reaches.invariant (fun iterator => iterator.read_index_ = iterator.end_index_) parked ?_ reached
      intro before call after parked _ moved
      cases moved
      exact (exec_parked parked call).1
    exact (exec_parked still call).2 demands

end ReadCall

open PickleIterator ReadCall in
/-- On any pickle that was accepted, after any reads: the failure of a read lasts exactly if it was not one of the two
failures that leave the read pointer where it is. -/
theorem readFailure_lasts_iff {data : List Byte} {data_len : BitVec 32} {iterator : PickleIterator} {call : ReadCall}
    (reached : Reached (PickleIterator.new (Pickle.ofData data data_len)) iterator)
    (failed : (call.exec iterator).1 = none) :
    Lasts (call.exec iterator).2 ↔ ¬ call.Unparked iterator := by
  have ordered : iterator.read_index_ ≤ iterator.end_index_ := (reached.kept (Nat.zero_le _)).ordered
  rw [lasts_iff (call.safe iterator ordered).1.ordered]
  exact parked_iff failed

open PickleIterator ReadCall in
theorem readFailure_lasts_iff_short :
    Lasts (ReadCall.int.exec (PickleIterator.new (Pickle.ofData [2, 0, 0, 0, 7, 0] 6))).2 ↔
      ¬ ReadCall.int.Unparked (PickleIterator.new (Pickle.ofData [2, 0, 0, 0, 7, 0] 6)) :=
  readFailure_lasts_iff .start (by decide)

open PickleIterator ReadCall in
/-- `ReadLength` fails on a negative length, and `ReadBool` then reads what is behind it. -/
theorem not_readFailure_lasts :
    ¬ ∀ (data : List Byte) (data_len : BitVec 32) (iterator : PickleIterator) (call : ReadCall),
      data.length = data_len.toNat → (Pickle.ofData data data_len).header_ ≠ none →
        Reached (PickleIterator.new (Pickle.ofData data data_len)) iterator → (call.exec iterator).1 = none →
          Lasts (call.exec iterator).2 := by
  intro claim
  have lasts := claim [8, 0, 0, 0, 255, 255, 255, 255, 1, 0, 0, 0] 12 _ .length rfl (by decide) .start (by decide)
  exact absurd (lasts _ .bool .start trivial) (by decide)

end Libchrome.Base
