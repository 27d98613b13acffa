import Mathlib.Algebra.Group.Pi.Basic
import Mathlib.Algebra.Group.Prod
import Mathlib.Data.List.GetD
import Libchrome.Base.Metrics.HistogramSamples

/-!
# Tallies of samples

Samples with one layout are added and subtracted bucket by bucket: the loops of `AddSubtractImpl` come
to their ends, whatever buckets the iterator skips, and the sums and counts follow the operator.
-/

namespace Libchrome.Base.Metrics

open Library

/-- The operator, on any tallies. -/
def Operator.combine {A : Type*} [AddCommGroup A] : Operator → A → A → A
  | .add, x, y => x + y
  | .subtract, x, y => x - y

namespace Operator

variable {A : Type*} [AddCommGroup A] (op : Operator)

theorem apply_eq_combine (old count : Count) : op.apply old count = op.combine old count := by
  cases op with
  | add => rfl
  | subtract => exact (sub_eq_add_neg old count).symm

@[simp] theorem combine_zero (x : A) : op.combine x 0 = x := by
  cases op with
  | add => exact add_zero x
  | subtract => exact sub_zero x

theorem combine_combine (x y z : A) : op.combine (op.combine x y) z = op.combine x (y + z) := by
  cases op with
  | add => exact add_assoc x y z
  | subtract => exact sub_sub x y z

theorem combine_add (w x y z : A) : op.combine (w + x) (y + z) = op.combine w y + op.combine x z := by
  cases op with
  | add => exact add_add_add_comm w x y z
  | subtract => exact add_sub_add_comm w x y z

theorem combine_sub (x y : A) : op.combine x y - x = op.combine 0 y := by
  cases op with
  | add => exact (add_sub_cancel_left x y).trans (zero_add y).symm
  | subtract => exact (sub_sub_cancel_left x y).trans (zero_sub y).symm

theorem combine_eq_add (x y : A) : op.combine x y = x + op.combine 0 y := by
  rw [← combine_sub op x y, add_sub_cancel]

end Operator

theorem skipEmptyBuckets_of_empty {bucket : SampleCount} (empty : bucket.count = 0) (rest : SampleCountIterator) :
    skipEmptyBuckets (bucket :: rest) = skipEmptyBuckets rest :=
  if_pos empty

theorem skipEmptyBuckets_of_filled {bucket : SampleCount} (filled : bucket.count ≠ 0) (rest : SampleCountIterator) :
    skipEmptyBuckets (bucket :: rest) = bucket :: rest :=
  if_neg filled

theorem length_skipEmptyBuckets_le (iter : SampleCountIterator) : (skipEmptyBuckets iter).length ≤ iter.length := by
  induction iter with
  | nil => exact Nat.le_refl _
  | cons bucket rest ih =>
    rw [skipEmptyBuckets]
    split
    · exact ih.trans (Nat.le_succ _)
    · exact Nat.le_refl _

namespace SampleVector

variable {ranges : BucketRanges} {op : Operator}

theorem addSubtractFrom_nil (turns index : Nat) (counts : List Count) :
    addSubtractFrom ranges op turns index [] counts = (counts, true) := by
  cases turns with
  | zero => rfl
  | succ turns => rfl

theorem addSubtractFrom_pass (increase : ranges.StartsIncrease) {bucket : SampleCount} {counts : List Count}
    (sized : counts.length = ranges.bucketCount) (rest : SampleCountIterator) (turns passed index : Nat)
    (inside : index + passed < counts.length) (start : bucket.min = ranges.range (index + passed)) :
    addSubtractFrom ranges op (turns + passed) index (bucket :: rest) counts =
      addSubtractFrom ranges op turns (index + passed) (bucket :: rest) counts := by
  induction passed generalizing index with
  | zero => rfl
  | succ passed ih =>
    have below : ranges.range index < bucket.min := by
      rw [start]
      exact increase _ _ (by omega) (sized ▸ inside)
    have different : ¬ (bucket.min = ranges.range index ∧ bucket.max = ranges.range (index + 1)) :=
      fun same => below.ne' same.1
    have shift : index + (passed + 1) = index + 1 + passed := by omega
    rw [← Nat.add_assoc, addSubtractFrom, if_pos (by omega), if_neg different, if_pos below, shift]
    exact ih (index + 1) (by omega) (shift ▸ start)

theorem addSubtractFrom_match {bucket : SampleCount} {front back : List Count} {old : Count}
    (start : bucket.min = ranges.range front.length) (stop : bucket.max = ranges.range (front.length + 1))
    (rest : SampleCountIterator) (turns : Nat) :
    addSubtractFrom ranges op (turns + 1) front.length (bucket :: rest) (front ++ old :: back) =
      addSubtractFrom ranges op turns front.length (skipEmptyBuckets rest)
        (front ++ [op.apply old bucket.count] ++ back) := by
  have inside : front.length < (front ++ old :: back).length := by
    rw [List.length_append, List.length_cons]
    omega
  rw [addSubtractFrom, if_pos inside, if_pos ⟨start, stop⟩, List.set_append_right _ _ (Nat.le_refl _),
    List.getD_append_right _ _ _ _ (Nat.le_refl _), Nat.sub_self, List.append_assoc]
  rfl

/-- Over the entries of a vector with the same ranges, the loop meets each bucket. `front` holds the
buckets that are done. -/
theorem addSubtractFrom_buckets (increase : ranges.StartsIncrease) (others : List Count)
    {front back : List Count} (same : back.length = others.length)
    (sized : front.length + back.length = ranges.bucketCount) {turns index : Nat}
    (before : index ≤ front.length)
    (enough : ranges.bucketCount - index + (skipEmptyBuckets (bucketsFrom ranges front.length others)).length ≤ turns) :
    addSubtractFrom ranges op turns index (skipEmptyBuckets (bucketsFrom ranges front.length others)) (front ++ back) =
      (front ++ List.zipWith op.apply back others, true) := by
  induction others generalizing front back turns index with
  | nil =>
    obtain rfl := List.length_eq_zero_iff.mp same
    exact addSubtractFrom_nil turns index _
  | cons count others ih =>
    obtain ⟨old, back, rfl⟩ : ∃ old rest, back = old :: rest := List.exists_cons_of_length_eq_add_one same
    rw [List.length_cons, List.length_cons, Nat.add_right_cancel_iff] at same
    rw [List.length_cons] at sized
    have next (new : Count) : (front ++ [new]).length = front.length + 1 := List.length_append
    by_cases empty : count = 0
    · subst empty
      rw [bucketsFrom, skipEmptyBuckets_of_empty rfl, ← next old] at enough ⊢
      have done := ih same (by rw [next]; omega) (by rw [next]; omega) enough
      rw [List.append_assoc] at done
      rw [List.singleton_append] at done
      rw [done, List.zipWith_cons_cons, Operator.apply_eq_combine, Operator.combine_zero, List.append_assoc]
      rfl
    · rw [bucketsFrom, skipEmptyBuckets_of_filled empty] at enough ⊢
      have shorter := length_skipEmptyBuckets_le (bucketsFrom ranges (front.length + 1) others)
      rw [List.length_cons] at enough
      obtain ⟨left, rfl⟩ : ∃ left, turns = left + 1 + (front.length - index) :=
        ⟨turns - 1 - (front.length - index), by omega⟩
      have place : index + (front.length - index) = front.length := Nat.add_sub_cancel' before
      rw [addSubtractFrom_pass increase (by rw [List.length_append, List.length_cons]; omega) _ _ _ _
        (by rw [place, List.length_append, List.length_cons]; omega) (by rw [place]), place,
        addSubtractFrom_match rfl rfl, ← next (op.apply old count),
        ih same (by rw [next]; omega) (by rw [next]; omega) (by rw [next]; omega)]
      rw [List.zipWith_cons_cons, List.append_assoc, List.singleton_append]

/-- `AddSubtractImpl` on a vector with the same ranges. -/
theorem addSubtractImpl_iterator {samples other : SampleVector} (same : other.bucketRanges = samples.bucketRanges)
    (increase : samples.bucketRanges.StartsIncrease) :
    (samples.addSubtractImpl other.iterator op).1.counts = List.zipWith op.apply samples.counts other.counts ∧
      (samples.addSubtractImpl other.iterator op).2 = true := by
  have lengths : samples.counts.length = other.counts.length := by rw [samples.sized, other.sized, same]
  have entries : other.iterator = skipEmptyBuckets (bucketsFrom samples.bucketRanges 0 other.counts) := by
    rw [iterator, same]
  have enough : samples.bucketRanges.bucketCount - 0 +
      (skipEmptyBuckets (bucketsFrom samples.bucketRanges 0 other.counts)).length ≤
        samples.counts.length + other.iterator.length := by
    rw [entries, samples.sized]
    exact Nat.le_refl _
  have done : addSubtractFrom samples.bucketRanges op (samples.counts.length + other.iterator.length) 0
      (skipEmptyBuckets (bucketsFrom samples.bucketRanges 0 other.counts)) ([] ++ samples.counts) =
        ([] ++ List.zipWith op.apply samples.counts other.counts, true) :=
    addSubtractFrom_buckets increase other.counts lengths
      (by rw [List.length_nil, Nat.zero_add, samples.sized]) (Nat.le_refl 0) enough
  rw [List.nil_append, List.nil_append, ← entries] at done
  constructor
  · exact congrArg Prod.fst done
  · exact congrArg Prod.snd done

theorem searchBucket_spec {value : Sample} (turns : Nat) {under beyond : Nat} (some_ : under < beyond)
    (enough : beyond - under ≤ turns) (least : ranges.range under ≤ value) (most : value < ranges.range beyond) :
    searchBucket ranges value turns under beyond < beyond ∧
      ranges.range (searchBucket ranges value turns under beyond) ≤ value ∧
      value < ranges.range (searchBucket ranges value turns under beyond + 1) := by
  induction turns generalizing under beyond with
  | zero => omega
  | succ turns ih =>
    rw [searchBucket]
    split
    next last =>
      have next : beyond = under + 1 := by omega
      rw [last]
      exact ⟨some_, least, next ▸ most⟩
    next more =>
      split
      next above => exact ih (by omega) (by omega) above most
      next below =>
        have less : under + (beyond - under) / 2 - under ≤ turns := by omega
        obtain ⟨inside, found⟩ := ih (by omega) less least (Int.not_le.mp below)
        exact ⟨by omega, found⟩

/-- `GetBucketIndex` passes its checks just for the values in the ranges, and finds the bucket of each. -/
theorem getBucketIndex_spec {value : Sample} {i : Nat} (found : getBucketIndex ranges value = some i) :
    i < ranges.bucketCount ∧ ranges.range i ≤ value ∧ value < ranges.range (i + 1) := by
  obtain ⟨⟨some_, least, most⟩, found⟩ := Option.ite_none_right_eq_some.mp found
  obtain ⟨-, same⟩ := Option.ite_none_right_eq_some.mp found
  obtain rfl := Option.some.inj same
  exact searchBucket_spec _ some_ (Nat.le_refl _) least most

theorem getBucketIndex_isSome_iff {value : Sample} :
    (getBucketIndex ranges value).isSome ↔
      1 ≤ ranges.bucketCount ∧ ranges.range 0 ≤ value ∧ value < ranges.range ranges.bucketCount := by
  constructor
  · intro found
    obtain ⟨i, found⟩ := Option.isSome_iff_exists.mp found
    exact (Option.ite_none_right_eq_some.mp found).1
  · intro checks
    have passes := (searchBucket_spec ranges.bucketCount checks.1 (Nat.le_refl _) checks.2.1 checks.2.2).2.2
    simp only [getBucketIndex, if_pos checks, if_pos passes, Option.isSome_some]

theorem sum_zipWith_apply {counts others : List Count} (same : counts.length = others.length) :
    (List.zipWith op.apply counts others).sum = op.combine counts.sum others.sum := by
  induction counts generalizing others with
  | nil =>
    obtain rfl := List.length_eq_zero_iff.mp same.symm
    exact (op.combine_zero 0).symm
  | cons old counts ih =>
    obtain ⟨count, others, rfl⟩ := List.exists_cons_of_length_eq_add_one same.symm
    rw [List.length_cons, List.length_cons, Nat.add_right_cancel_iff] at same
    rw [List.zipWith_cons_cons, List.sum_cons, List.sum_cons, List.sum_cons, ih same, op.apply_eq_combine,
      ← op.combine_add]

theorem getD_zipWith_apply {counts others : List Count} (same : counts.length = others.length) (i : Nat) :
    (List.zipWith op.apply counts others).getD i 0 = op.combine (counts.getD i 0) (others.getD i 0) := by
  by_cases inside : i < counts.length
  · have inOthers : i < others.length := same ▸ inside
    have inBoth : i < (List.zipWith op.apply counts others).length := by
      rw [List.length_zipWith, same, Nat.min_self]
      exact inOthers
    rw [List.getD_eq_getElem _ _ inside, List.getD_eq_getElem _ _ inOthers, List.getD_eq_getElem _ _ inBoth,
      List.getElem_zipWith, op.apply_eq_combine]
  · have outside : others.length ≤ i := same ▸ Nat.le_of_not_lt inside
    have outsideBoth : (List.zipWith op.apply counts others).length ≤ i := by
      rw [List.length_zipWith, same, Nat.min_self]
      exact outside
    rw [List.getD_eq_default _ _ outsideBoth, List.getD_eq_default _ _ (same.trans_le outside),
      List.getD_eq_default _ _ outside, op.combine_zero]

end SampleVector

namespace SampleMap

/-- The count for a value. -/
def countOf (counts : OrderedMap Sample Count) (value : Sample) : Count :=
  (counts.find value).getD 0

def totalOf (counts : OrderedMap Sample Count) : Count :=
  (counts.entries.map fun entry => entry.2).sum

theorem countOf_change (op : Operator) (value other : Sample) (count : Count) (counts : OrderedMap Sample Count) :
    countOf (change op value count counts) other =
      op.combine (countOf counts other) (if value = other then count else 0) := by
  rw [countOf, change, OrderedMap.find_update]
  by_cases same : other = value
  · subst same
    rw [if_pos rfl, if_pos rfl, Option.getD_some, op.apply_eq_combine, countOf]
  · rw [if_neg same, if_neg (Ne.symm same), op.combine_zero, countOf]

theorem totalOf_change (op : Operator) (value : Sample) (count : Count) (counts : OrderedMap Sample Count) :
    totalOf (change op value count counts) = op.combine (totalOf counts) count := by
  have total := counts.sum_update (fun _ old : Count => old) value fun old => op.apply (old.getD 0) count
  have old : ((counts.find value).map fun old => old).getD 0 = (counts.find value).getD 0 := by
    rw [Option.map_id']
  rw [old, op.apply_eq_combine, op.combine_sub, ← op.combine_eq_add] at total
  exact total

/-- Over the entries of a map, the loop changes each value by its count. -/
theorem addSubtractFrom_buckets (op : Operator) (entries : List (Sample × Count)) {turns : Nat}
    (enough : (skipEmptyBuckets (buckets entries)).length ≤ turns) (counts : OrderedMap Sample Count) :
    ∃ result, addSubtractFrom op turns (skipEmptyBuckets (buckets entries)) counts = (result, true) ∧
      (∀ value, countOf result value =
        op.combine (countOf counts value) (entries.map fun entry => if entry.1 = value then entry.2 else 0).sum) ∧
      totalOf result = op.combine (totalOf counts) (entries.map fun entry => entry.2).sum := by
  induction entries generalizing turns counts with
  | nil =>
    refine ⟨counts, ?_, fun value => (op.combine_zero _).symm, (op.combine_zero _).symm⟩
    cases turns with
    | zero => rfl
    | succ turns => rfl
  | cons entry entries ih =>
    by_cases empty : entry.2 = 0
    · have skipped : skipEmptyBuckets (buckets (entry :: entries)) = skipEmptyBuckets (buckets entries) :=
        skipEmptyBuckets_of_empty empty _
      rw [skipped] at enough ⊢
      obtain ⟨result, done, each, total⟩ := ih enough counts
      refine ⟨result, done, fun value => ?_, ?_⟩
      · rw [each, List.map_cons, List.sum_cons, empty, ite_self, zero_add]
      · rw [total, List.map_cons, List.sum_cons, empty, zero_add]
    · have stays : skipEmptyBuckets (buckets (entry :: entries)) =
          ⟨entry.1, entry.1 + 1, entry.2⟩ :: buckets entries := skipEmptyBuckets_of_filled empty _
      rw [stays] at enough ⊢
      have shorter := length_skipEmptyBuckets_le (buckets entries)
      rw [List.length_cons] at enough
      obtain ⟨left, rfl⟩ : ∃ left, turns = left + 1 := ⟨turns - 1, by omega⟩
      have enough : (skipEmptyBuckets (buckets entries)).length ≤ left := by omega
      obtain ⟨result, done, each, total⟩ := ih enough (change op entry.1 entry.2 counts)
      refine ⟨result, ?_, fun value => ?_, ?_⟩
      · rw [addSubtractFrom, if_pos rfl]
        exact done
      · rw [each, countOf_change, op.combine_combine, List.map_cons, List.sum_cons]
      · rw [total, totalOf_change, op.combine_combine, List.map_cons, List.sum_cons]

/-- `AddSubtractImpl` on a map. -/
theorem addSubtractImpl_iterator (op : Operator) (samples other : SampleMap) :
    (∀ value, (samples.addSubtractImpl other.iterator op).1.getCount value =
        op.combine (samples.getCount value) (other.getCount value)) ∧
      (samples.addSubtractImpl other.iterator op).1.totalCount = op.combine samples.totalCount other.totalCount ∧
      (samples.addSubtractImpl other.iterator op).2 = true := by
  obtain ⟨result, done, each, total⟩ := addSubtractFrom_buckets op other.sampleCounts.entries (Nat.le_refl _)
    samples.sampleCounts
  have impl : samples.addSubtractImpl other.iterator op = ({ samples with sampleCounts := result }, true) := by
    rw [addSubtractImpl, iterator, done]
  rw [impl]
  refine ⟨fun value => ?_, total, rfl⟩
  have held := each value
  rw [OrderedMap.sum_single] at held
  exact held

end SampleMap

/-- The buckets of both kinds of samples: by index in a vector, by value in a map. -/
inductive Bucket where
  | index (i : Nat)
  | value (v : Sample)
  deriving DecidableEq

/-- Bucket counts, sum and redundant count. -/
abbrev Tally := (Bucket → Int) × Int × Int

namespace HistogramSamples

def countIn : HistogramSamples → Bucket → Count
  | vector samples, .index i => samples.getCountAtIndex i
  | map samples, .value v => samples.getCount v
  | vector _, .value _ => 0
  | map _, .index _ => 0

def tally (samples : HistogramSamples) : Tally :=
  (samples.countIn, samples.sum, samples.redundantCount)

/-- The ranges of a vector; a map has none. -/
def layout : HistogramSamples → Option BucketRanges
  | vector samples => some samples.bucketRanges
  | map _ => none

/-- The buckets of samples with a layout can be told apart by their starts. -/
def Orderly (layout : Option BucketRanges) : Prop :=
  ∀ ranges, layout = some ranges → ranges.StartsIncrease

variable {samples other : HistogramSamples} {op : Operator}

@[simp] theorem layout_addSubtract : (samples.addSubtract op other).layout = samples.layout := by
  cases samples with
  | vector samples => rfl
  | map samples => rfl

@[simp] theorem sum_addSubtract : (samples.addSubtract op other).sum = op.combine samples.sum other.sum := by
  cases samples with
  | vector samples => exact op.apply_eq_combine _ _
  | map samples => exact op.apply_eq_combine _ _

@[simp] theorem redundantCount_addSubtract :
    (samples.addSubtract op other).redundantCount = op.combine samples.redundantCount other.redundantCount := by
  cases samples with
  | vector samples => exact op.apply_eq_combine _ _
  | map samples => exact op.apply_eq_combine _ _

/-- Samples of one layout are added and subtracted bucket by bucket. -/
theorem addSubtract_counts (same : other.layout = samples.layout) (orderly : Orderly samples.layout) :
    (∀ bucket, (samples.addSubtract op other).countIn bucket =
        op.combine (samples.countIn bucket) (other.countIn bucket)) ∧
      (samples.addSubtract op other).totalCount = op.combine samples.totalCount other.totalCount := by
  cases samples with
  | vector samples =>
    cases other with
    | map other => cases same
    | vector other =>
      have ranges : other.bucketRanges = samples.bucketRanges := Option.some.inj same
      have increase := orderly _ rfl
      have lengths : samples.counts.length = other.counts.length := by rw [samples.sized, other.sized, ranges]
      let start : SampleVector :=
        { samples with
          sum := op.apply samples.sum other.sum
          redundantCount := op.apply samples.redundantCount other.redundantCount }
      have done : (start.addSubtractImpl other.iterator op).1.counts =
          List.zipWith op.apply samples.counts other.counts :=
        (SampleVector.addSubtractImpl_iterator ranges increase).1
      constructor
      · intro bucket
        cases bucket with
        | value v => exact (op.combine_zero 0).symm
        | index i =>
          change (start.addSubtractImpl other.iterator op).1.counts.getD i 0 = _
          rw [done]
          exact SampleVector.getD_zipWith_apply lengths i
      · change (start.addSubtractImpl other.iterator op).1.counts.sum = _
        rw [done]
        exact SampleVector.sum_zipWith_apply lengths
  | map samples =>
    cases other with
    | vector other => cases same
    | map other =>
      let start : SampleMap :=
        { samples with
          sum := op.apply samples.sum other.sum
          redundantCount := op.apply samples.redundantCount other.redundantCount }
      obtain ⟨each, total, -⟩ := SampleMap.addSubtractImpl_iterator op start other
      constructor
      · intro bucket
        cases bucket with
        | index i => exact (op.combine_zero 0).symm
        | value v => exact each v
      · exact total

theorem addSubtract_tally (same : other.layout = samples.layout) (orderly : Orderly samples.layout) :
    (samples.addSubtract op other).tally = op.combine samples.tally other.tally := by
  have counts : (samples.addSubtract op other).countIn = op.combine samples.countIn other.countIn := by
    funext bucket
    rw [(addSubtract_counts same orderly).1]
    cases op with
    | add => rfl
    | subtract => rfl
  rw [tally, counts, sum_addSubtract, redundantCount_addSubtract]
  cases op with
  | add => rfl
  | subtract => rfl

end HistogramSamples

end Libchrome.Base.Metrics
