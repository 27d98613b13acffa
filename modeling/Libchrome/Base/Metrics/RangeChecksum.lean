import Libchrome.Base.Metrics.HistogramSamples
import Libchrome.Library.TableCrc
import Mathlib.Data.Fintype.Basic
import Mathlib.Data.Fintype.EquivFin
import Mathlib.Data.List.GetD

/-!
# The checksum of `BucketRanges`

`kCrcTable` has distinct top bytes, so the checksum is injective in each entry.
-/

namespace Libchrome.Base.Metrics

open Library

/-- The values of an `int32_t`. -/
def IsInt32 (value : Int) : Prop := -2147483648 ≤ value ∧ value < 2147483648

instance (value : Int) : Decidable (IsInt32 value) := inferInstanceAs (Decidable (_ ∧ _))

/-- `kCrcTable` at a byte. -/
def crcWord (i : BitVec 8) : BitVec 32 := crcTable.getD i.toNat 0

/-- The bytes of a sample, of eight bits each. -/
def sampleOctets (value : Sample) : List (BitVec 8) :=
  let bits := BitVec.ofInt 32 value
  [bits.setWidth 8, (bits >>> 8).setWidth 8, (bits >>> 16).setWidth 8, (bits >>> 24).setWidth 8]

/-- The top bytes of the table's words, as a set of bits. -/
def topsSeen (words : List (BitVec 32)) (seen : Nat) : Nat :=
  words.foldl (fun seen word => seen ||| 1 <<< (word.toNat / 2 ^ 24)) seen

theorem testBit_topsSeen (words : List (BitVec 32)) (seen top : Nat) :
    (topsSeen words seen).testBit top = true ↔ seen.testBit top = true ∨ ∃ word ∈ words, word.toNat / 2 ^ 24 = top := by
  induction words generalizing seen with
  | nil => simp [topsSeen]
  | cons word words ih =>
    have turn : topsSeen (word :: words) seen = topsSeen words (seen ||| 1 <<< (word.toNat / 2 ^ 24)) := rfl
    rw [turn, ih]
    simp [Nat.one_shiftLeft, Nat.testBit_two_pow, or_assoc]

theorem exists_top (top : Nat) (byte : top < 256) : ∃ word ∈ crcTable.toList, word.toNat / 2 ^ 24 = top := by
  have all : topsSeen crcTable.toList 0 = 2 ^ 256 - 1 := by decide +kernel
  have seen : (topsSeen crcTable.toList 0).testBit top = true := by
    rw [all, Nat.testBit_two_pow_sub_one]
    exact decide_eq_true byte
  have found := (testBit_topsSeen crcTable.toList 0 top).mp seen
  simpa using found

/-- The top byte of the word at a position. -/
def topAt (i : Fin 256) : Fin 256 :=
  ⟨(crcWord (BitVec.ofFin i)).toNat / 2 ^ 24, Nat.div_lt_of_lt_mul (crcWord (BitVec.ofFin i)).isLt⟩

theorem topAt_surjective : Function.Surjective topAt := by
  intro top
  obtain ⟨word, listed, is⟩ := exists_top top top.isLt
  obtain ⟨i, within, rfl⟩ := List.mem_iff_getElem.mp listed
  have size : crcTable.size = 256 := by decide +kernel
  have position : i < 256 := size ▸ within
  refine ⟨⟨i, position⟩, Fin.ext ?_⟩
  rw [← is]
  simp [topAt, crcWord, size, position]

theorem crcWord_topsDistinct : TableCrc.TopsDistinct crcWord := by
  intro i j same
  have injective : Function.Injective topAt := Finite.injective_iff_surjective.mpr topAt_surjective
  have tops : topAt i.toFin = topAt j.toFin := by
    have numbers := congrArg BitVec.toNat same
    rw [BitVec.toNat_ushiftRight, BitVec.toNat_ushiftRight, Nat.shiftRight_eq_div_pow,
      Nat.shiftRight_eq_div_pow] at numbers
    exact Fin.ext numbers
  exact BitVec.eq_of_toNat_eq (congrArg Fin.val (injective tops))

theorem toNat_index (sum bits : BitVec 32) :
    (sum &&& 0xff ^^^ (bits &&& 0xff)).toNat = (TableCrc.index sum (bits.setWidth 8)).toNat := by
  have mask (x : BitVec 32) : (x &&& 0xff).toNat = (x.setWidth 8).toNat := by
    rw [BitVec.toNat_and, BitVec.toNat_setWidth]
    exact Nat.and_two_pow_sub_one_eq_mod x.toNat 8
  rw [BitVec.toNat_xor, mask, mask, TableCrc.index, BitVec.toNat_xor]

theorem crc32_eq_run (sum : BitVec 32) (value : Sample) :
    crc32 sum value = TableCrc.run crcWord sum (sampleOctets value) := by
  have turn (sum bits : BitVec 32) :
      crcTable.getD (sum &&& 0xff ^^^ (bits &&& 0xff)).toNat 0 ^^^ sum >>> 8 =
        TableCrc.step crcWord sum (bits.setWidth 8) := by
    rw [toNat_index]
    rfl
  simp only [crc32, sampleBytes, sampleOctets, TableCrc.run, List.foldl_cons, List.foldl_nil, turn]

theorem sampleOctets_injective {x y : Sample} (left : IsInt32 x) (right : IsInt32 y)
    (same : sampleOctets x = sampleOctets y) : x = y := by
  simp only [sampleOctets, List.cons.injEq, and_true] at same
  obtain ⟨first, second, third, fourth⟩ := same
  have upper : BitVec.ofInt 32 x >>> 8 >>> 8 >>> 8 = BitVec.ofInt 32 y >>> 8 >>> 8 >>> 8 := by
    apply TableCrc.eq_of_bytes
    · simpa only [← BitVec.shiftRight_add] using fourth
    · simp only [← BitVec.shiftRight_add]
      rw [BitVec.ushiftRight_eq_zero (by decide), BitVec.ushiftRight_eq_zero (by decide)]
  have middle : BitVec.ofInt 32 x >>> 8 >>> 8 = BitVec.ofInt 32 y >>> 8 >>> 8 := by
    apply TableCrc.eq_of_bytes _ upper
    simpa only [← BitVec.shiftRight_add] using third
  have bits : BitVec.ofInt 32 x = BitVec.ofInt 32 y :=
    TableCrc.eq_of_bytes first (TableCrc.eq_of_bytes second middle)
  have numbers := congrArg BitVec.toInt bits
  rwa [BitVec.toInt_ofInt_eq_self (by decide) left.1 left.2,
    BitVec.toInt_ofInt_eq_self (by decide) right.1 right.2] at numbers

theorem crc32_injective_value {x y : Sample} (left : IsInt32 x) (right : IsInt32 y) {sum : BitVec 32}
    (same : crc32 sum x = crc32 sum y) : x = y := by
  rw [crc32_eq_run, crc32_eq_run] at same
  exact sampleOctets_injective left right
    (TableCrc.run_bytes_injective crcWord_topsDistinct _ _ _ rfl (Nat.le_refl 32) same)

theorem crc32_injective_sum {sum sum' : BitVec 32} {value : Sample} (same : crc32 sum value = crc32 sum' value) :
    sum = sum' := by
  rw [crc32_eq_run, crc32_eq_run] at same
  exact TableCrc.run_injective crcWord_topsDistinct (by decide) _ _ _ same

namespace BucketRanges

/-- An entry that is written over, by whatever means. -/
def overwrite (ranges : BucketRanges) (i : Nat) (value : Sample) : BucketRanges :=
  { ranges with ranges := ranges.ranges.set i value }

/-- `set_range`. -/
def setRange (ranges : BucketRanges) (i : Nat) (value : Sample) : Option BucketRanges :=
  if i < ranges.size ∧ 0 ≤ value then some (ranges.overwrite i value) else none

/-- `Equals`. -/
def equals (ranges other : BucketRanges) : Bool :=
  if ranges.checksum ≠ other.checksum then false
  else if ranges.size ≠ other.size then false
  else (List.range ranges.size).all fun index => ranges.range index = other.range index

/-- What can befall the entries and the checksum that was calculated from them. -/
inductive Event where
  | setRange (i : Nat) (value : Sample)
  | overwrite (i : Nat) (value : Sample)
  | resetChecksum
  deriving DecidableEq, Repr

def Event.apply (ranges : BucketRanges) : Event → Option BucketRanges
  | .setRange i value => ranges.setRange i value
  | .overwrite i value => some (ranges.overwrite i value)
  | .resetChecksum => some ranges.resetChecksum

/-- An event that puts another value in an entry. -/
def Event.Changes (ranges : BucketRanges) : Event → Prop
  | .setRange i value | .overwrite i value => i < ranges.size ∧ value ≠ ranges.range i
  | .resetChecksum => False

instance (ranges : BucketRanges) : DecidablePred (Event.Changes ranges)
  | .setRange .. | .overwrite .. => inferInstanceAs (Decidable (_ ∧ _))
  | .resetChecksum => inferInstanceAs (Decidable False)

theorem foldl_crc32_injective (entries : List Sample) (sum sum' : BitVec 32)
    (same : entries.foldl crc32 sum = entries.foldl crc32 sum') : sum = sum' := by
  induction entries generalizing sum sum' with
  | nil => exact same
  | cons entry entries ih => exact crc32_injective_sum (ih _ _ same)

theorem calculateChecksum_overwrite {ranges : BucketRanges} {i : Nat} {value : Sample} (within : i < ranges.size)
    (old : IsInt32 (ranges.range i)) (new : IsInt32 value) (differs : value ≠ ranges.range i) :
    (ranges.overwrite i value).calculateChecksum ≠ ranges.calculateChecksum := by
  intro same
  have entry : ranges.range i = ranges.ranges[i] := List.getD_eq_getElem _ _ within
  have split : ranges.ranges = ranges.ranges.take i ++ ranges.ranges[i] :: ranges.ranges.drop (i + 1) := by
    rw [← List.drop_eq_getElem_cons within, List.take_append_drop]
  have changed : (ranges.overwrite i value).ranges =
      ranges.ranges.take i ++ value :: ranges.ranges.drop (i + 1) :=
    List.set_eq_take_append_cons_drop.trans (if_pos within)
  have size : (ranges.overwrite i value).size = ranges.size := List.length_set
  rw [calculateChecksum, calculateChecksum, size, changed] at same
  nth_rewrite 3 [split] at same
  rw [List.foldl_append, List.foldl_append, List.foldl_cons, List.foldl_cons] at same
  have sums := foldl_crc32_injective _ _ _ same
  rw [entry] at old differs
  exact differs (crc32_injective_value new old sums)

theorem equals_iff_of_valid {ranges other : BucketRanges} (valid : ranges.hasValidChecksum)
    (valid' : other.hasValidChecksum) : ranges.equals other = true ↔ ranges.ranges = other.ranges := by
  have checksum : ranges.calculateChecksum = ranges.checksum := of_decide_eq_true valid
  have checksum' : other.calculateChecksum = other.checksum := of_decide_eq_true valid'
  unfold equals
  constructor
  · intro equal
    split at equal
    next => cases equal
    next =>
      split at equal
      next => cases equal
      next sizes =>
        rw [List.all_eq_true] at equal
        apply List.ext_getElem (not_not.mp sizes)
        intro i within within'
        have entries := of_decide_eq_true (equal i (List.mem_range.mpr within))
        rwa [range, range, List.getD_eq_getElem _ _ within, List.getD_eq_getElem _ _ within'] at entries
  · intro same
    have sums : ranges.checksum = other.checksum := by
      rw [← checksum, ← checksum', calculateChecksum, calculateChecksum, size, size, same]
    rw [if_neg (not_not.mpr sums), if_neg (by rw [size, size, same]; exact not_not.mpr rfl), List.all_eq_true]
    intro i _
    rw [range, range, same]
    exact decide_eq_true rfl

theorem Event.apply_keeps {ranges before after : BucketRanges} {event : Event}
    (applied : event.apply before = some after) (unchanged : ¬event.Changes ranges)
    (same : before.ranges = ranges.ranges) (valid : before.hasValidChecksum) :
    after.ranges = ranges.ranges ∧ after.hasValidChecksum := by
  have written (i : Nat) (value : Sample) (unchanged : ¬(i < ranges.size ∧ value ≠ ranges.range i)) :
      before.overwrite i value = before := by
    have kept : ranges.ranges.set i value = ranges.ranges := by
      by_cases within : i < ranges.ranges.length
      · have value_eq : value = ranges.ranges[i] := by
          rw [← List.getD_eq_getElem _ 0 within]
          exact not_not.mp fun differs => unchanged ⟨within, differs⟩
        rw [value_eq, List.set_getElem_self]
      · exact List.set_eq_of_length_le (Nat.le_of_not_lt within)
    rw [BucketRanges.overwrite, same, kept, ← same]
  cases event with
  | setRange i value =>
    simp only [apply, BucketRanges.setRange, Option.ite_none_right_eq_some] at applied
    rw [← Option.some.inj applied.2, written i value unchanged]
    exact ⟨same, valid⟩
  | overwrite i value =>
    simp only [apply, Option.some.injEq] at applied
    rw [← applied, written i value unchanged]
    exact ⟨same, valid⟩
  | resetChecksum =>
    simp only [apply, Option.some.injEq] at applied
    rw [← applied]
    exact ⟨same, before.hasValidChecksum_resetChecksum⟩

theorem hasValidChecksum_of_unchanged {ranges : BucketRanges} (events : List Event) {before after : BucketRanges}
    (run : events.foldlM Event.apply before = some after) (unchanged : ∀ event ∈ events, ¬event.Changes ranges)
    (same : before.ranges = ranges.ranges) (valid : before.hasValidChecksum) :
    after.ranges = ranges.ranges ∧ after.hasValidChecksum := by
  induction events generalizing before with
  | nil =>
    cases run
    exact ⟨same, valid⟩
  | cons event events ih =>
    rw [List.foldlM_cons] at run
    obtain ⟨next, applied, rest⟩ := Option.bind_eq_some_iff.mp run
    obtain ⟨kept, validNext⟩ := event.apply_keeps applied (unchanged event (List.mem_cons_self ..)) same valid
    exact ih rest (fun later listed => unchanged later (List.mem_cons_of_mem _ listed)) kept validNext

/-- The checksum tells every change of one entry, objects with valid checksums are equal when their entries
are, and a checksum that was reset stays valid until an entry changes. -/
theorem checksum_detects :
    (∀ (ranges : BucketRanges) (i : Nat) (value : Sample), i < ranges.size → IsInt32 (ranges.range i) →
      IsInt32 value → value ≠ ranges.range i →
        (ranges.overwrite i value).calculateChecksum ≠ ranges.calculateChecksum) ∧
    (∀ ranges other : BucketRanges, ranges.hasValidChecksum → other.hasValidChecksum →
      (ranges.equals other = true ↔ ranges.ranges = other.ranges)) ∧
    ∀ (ranges : BucketRanges) (events : List Event) (after : BucketRanges),
      events.foldlM Event.apply ranges.resetChecksum = some after →
        (∀ event ∈ events, ¬event.Changes ranges) → after.hasValidChecksum := by
  refine ⟨fun ranges i value => calculateChecksum_overwrite, fun ranges other => equals_iff_of_valid, ?_⟩
  intro ranges events after run unchanged
  have reset := ranges.hasValidChecksum_resetChecksum
  exact (hasValidChecksum_of_unchanged events run unchanged rfl reset).2

theorem checksum_detects_three :
    (overwrite ⟨[0, 1, 2], 289217253⟩ 2 3).calculateChecksum ≠ calculateChecksum ⟨[0, 1, 2], 289217253⟩ ∧
      (equals ⟨[0, 1, 2], 289217253⟩ ⟨[0, 1, 2], 289217253⟩ = true ↔ ([0, 1, 2] : List Sample) = [0, 1, 2]) ∧
      hasValidChecksum ⟨[0, 1, 2], 289217253⟩ := by
  have valid : hasValidChecksum ⟨[0, 1, 2], 289217253⟩ := by decide +kernel
  obtain ⟨tells, equals, keeps⟩ := checksum_detects
  refine ⟨?_, equals _ _ valid valid, ?_⟩
  · exact tells _ 2 3 (by decide) (by decide) (by decide) (by decide)
  · exact keeps ⟨[0, 1, 2], 0⟩ [.setRange 1 1] _ (by decide +kernel) (by decide)

end BucketRanges

end Libchrome.Base.Metrics
