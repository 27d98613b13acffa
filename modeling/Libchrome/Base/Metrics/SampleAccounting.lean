import Libchrome.Base.Metrics.DeltaAccounting
import Libchrome.Base.Metrics.RangeChecksum
import Mathlib.Algebra.Order.BigOperators.Group.List

/-!
# Accounting of samples in machine integers

`Accumulate` multiplies the count by the value in an `int` before it adds the product to a sum of 64 bits. As long
as no such product overflows, all the aggregates are exact.
-/

namespace Libchrome.Base.Metrics

open Library

/-- The values of an `int64_t`. -/
def IsInt64 (number : Int) : Prop := -9223372036854775808 ≤ number ∧ number < 9223372036854775808

instance (number : Int) : Decidable (IsInt64 number) := inferInstanceAs (Decidable (_ ∧ _))

/-- The sum of two `int`s, which has no value when it overflows. -/
def addInt32 (x y : Int) : Option Int := if IsInt32 (x + y) then some (x + y) else none

def mulInt32 (x y : Int) : Option Int := if IsInt32 (x * y) then some (x * y) else none

def addInt64 (x y : Int) : Option Int := if IsInt64 (x + y) then some (x + y) else none

/-- `Accumulate`. -/
def SampleVector.accumulateInt (samples : SampleVector) (value : Sample) (count : Count) : Option SampleVector := do
  let bucketIndex ← getBucketIndex samples.bucketRanges value
  let stored ← addInt32 (samples.counts.getD bucketIndex 0) count
  let product ← mulInt32 count value
  let sum ← addInt64 samples.sum product
  let redundantCount ← addInt32 samples.redundantCount count
  some { samples with
    counts := samples.counts.set bucketIndex stored
    sum
    redundantCount
    sized := List.length_set.trans samples.sized }

def SampleMap.accumulateInt (samples : SampleMap) (value : Sample) (count : Count) : Option SampleMap := do
  let _ ← addInt32 (samples.getCount value) count
  let product ← mulInt32 count value
  let sum ← addInt64 samples.sum product
  let redundantCount ← addInt32 samples.redundantCount count
  some { samples with
    sampleCounts := change .add value count samples.sampleCounts
    sum
    redundantCount }

/-- `TotalCount`, which adds in an `int`. -/
def HistogramSamples.totalCountInt : HistogramSamples → Option Count
  | vector samples => samples.counts.foldlM addInt32 0
  | map samples => (samples.sampleCounts.entries.map fun entry => entry.2).foldlM addInt32 0

namespace HistogramBase

/-- The value that `AddCount` accumulates. -/
def limited (histogram : HistogramBase) (value : Int) : Int :=
  match histogram with
  | .histogram _ =>
    let value := if value > sampleTypeMax - 1 then sampleTypeMax - 1 else value
    if value < 0 then 0 else value
  | .sparseHistogram _ => value

/-- `AddCount`. -/
def addCountInt (histogram : HistogramBase) (value : Sample) (count : Count) : Option HistogramBase :=
  if count ≤ 0 then some histogram
  else
    match histogram with
    | .histogram samples => (samples.accumulateInt (histogram.limited value) count).map .histogram
    | .sparseHistogram samples => (samples.accumulateInt value count).map .sparseHistogram

/-- The bucket of a value. -/
def bucketOf (histogram : HistogramBase) (value : Sample) : Option Bucket :=
  match histogram with
  | .histogram samples => (SampleVector.getBucketIndex samples.bucketRanges value).map .index
  | .sparseHistogram _ => some (.value value)

end HistogramBase

/-! ### One call -/

/-- What fits in the integers of `Accumulate`. -/
structure FitsInts (histogram : HistogramBase) (bucket : Bucket) (value : Sample) (count : Count) : Prop where
  stored : IsInt32 (histogram.samples.countIn bucket + count)
  product : IsInt32 (count * value)
  sum : IsInt64 (histogram.samples.sum + count * value)
  redundant : IsInt32 (histogram.samples.redundantCount + count)

theorem addInt32_eq_some {x y z : Int} : addInt32 x y = some z ↔ IsInt32 (x + y) ∧ z = x + y := by
  simp [addInt32, eq_comm]

theorem mulInt32_eq_some {x y z : Int} : mulInt32 x y = some z ↔ IsInt32 (x * y) ∧ z = x * y := by
  simp [mulInt32, eq_comm]

theorem addInt64_eq_some {x y z : Int} : addInt64 x y = some z ↔ IsInt64 (x + y) ∧ z = x + y := by
  simp [addInt64, eq_comm]

variable {value : Sample} {count : Count}

/-- Where nothing overflows, `Accumulate` is the one on all integers. -/
theorem SampleVector.accumulateInt_eq_some {samples after : SampleVector} :
    samples.accumulateInt value count = some after ↔
      ∃ i, getBucketIndex samples.bucketRanges value = some i ∧ FitsInts (.histogram samples) (.index i) value count ∧
        samples.accumulate value count = some after := by
  simp only [accumulateInt, accumulate, Option.bind_eq_bind, Option.bind_eq_some_iff, addInt32_eq_some,
    mulInt32_eq_some, addInt64_eq_some, Option.map_eq_some_iff]
  constructor
  · rintro ⟨i, found, _, ⟨stored, rfl⟩, _, ⟨product, rfl⟩, _, ⟨sum, rfl⟩, _, ⟨redundant, rfl⟩, same⟩
    exact ⟨i, found, ⟨stored, product, sum, redundant⟩, i, found, Option.some.inj same⟩
  · rintro ⟨i, found, fits, j, found', same⟩
    rw [found] at found'
    cases found'
    exact ⟨i, found, _, ⟨fits.stored, rfl⟩, _, ⟨fits.product, rfl⟩, _, ⟨fits.sum, rfl⟩, _,
      ⟨fits.redundant, rfl⟩, congrArg some same⟩

theorem SampleMap.accumulateInt_eq_some {samples after : SampleMap} :
    samples.accumulateInt value count = some after ↔
      FitsInts (.sparseHistogram samples) (.value value) value count ∧ samples.accumulate value count = after := by
  simp only [accumulateInt, Option.bind_eq_bind, Option.bind_eq_some_iff, addInt32_eq_some, mulInt32_eq_some,
    addInt64_eq_some]
  constructor
  · rintro ⟨_, ⟨stored, rfl⟩, _, ⟨product, rfl⟩, _, ⟨sum, rfl⟩, _, ⟨redundant, rfl⟩, same⟩
    exact ⟨⟨stored, product, sum, redundant⟩, Option.some.inj same⟩
  · rintro ⟨fits, same⟩
    exact ⟨_, ⟨fits.stored, rfl⟩, _, ⟨fits.product, rfl⟩, _, ⟨fits.sum, rfl⟩, _, ⟨fits.redundant, rfl⟩,
      congrArg some same⟩

variable {after : HistogramBase}

/-- A call with a positive count that gives a result: its bucket, that it fits, and what it makes of the tally. -/
theorem HistogramBase.addCountInt_grows {before : HistogramBase} (positive : 0 < count)
    (added : before.addCountInt value count = some after) :
    ∃ bucket, before.bucketOf (before.limited value) = some bucket ∧
      FitsInts before bucket (before.limited value) count ∧
      Grows before after (counted bucket (before.limited value) count) := by
  unfold addCountInt at added
  rw [if_neg (Int.not_le.mpr positive)] at added
  cases before with
  | histogram samples =>
    obtain ⟨grown, accumulated, rfl⟩ := Option.map_eq_some_iff.mp added
    obtain ⟨i, found, fits, accumulated⟩ := SampleVector.accumulateInt_eq_some.mp accumulated
    obtain ⟨j, found', grows⟩ := samples.accumulate_grows accumulated
    rw [found] at found'
    cases found'
    exact ⟨.index i, congrArg (Option.map Bucket.index) found, fits, grows⟩
  | sparseHistogram samples =>
    obtain ⟨grown, accumulated, rfl⟩ := Option.map_eq_some_iff.mp added
    obtain ⟨fits, rfl⟩ := SampleMap.accumulateInt_eq_some.mp accumulated
    exact ⟨.value value, rfl, fits, samples.accumulate_grows value count⟩

theorem HistogramBase.addCountInt_of_fits {before : HistogramBase} {bucket : Bucket} (positive : 0 < count)
    (found : before.bucketOf (before.limited value) = some bucket)
    (fits : FitsInts before bucket (before.limited value) count) :
    ∃ after, before.addCountInt value count = some after := by
  unfold addCountInt
  rw [if_neg (Int.not_le.mpr positive)]
  cases before with
  | histogram samples =>
    obtain ⟨i, index, rfl⟩ := Option.map_eq_some_iff.mp found
    have accumulated : samples.accumulate (limited (.histogram samples) value) count = some _ :=
      Option.map_eq_some_iff.mpr ⟨i, index, rfl⟩
    have result := SampleVector.accumulateInt_eq_some.mpr ⟨i, index, fits, accumulated⟩
    exact ⟨_, Option.map_eq_some_iff.mpr ⟨_, result, rfl⟩⟩
  | sparseHistogram samples =>
    cases found
    have result := SampleMap.accumulateInt_eq_some.mpr ⟨fits, rfl⟩
    exact ⟨_, Option.map_eq_some_iff.mpr ⟨_, result, rfl⟩⟩

/-! ### The buckets -/

/-- Ranges as they are made for histograms: they increase from zero to the greatest sample. -/
structure BucketRanges.Spans (ranges : BucketRanges) : Prop where
  increase : ∀ i j, i < j → j < ranges.size → ranges.range i < ranges.range j
  first : ranges.range 0 = 0
  last : ranges.range ranges.bucketCount = sampleTypeMax

namespace HistogramBase

/-- A value belongs to a bucket. -/
def FallsIn (histogram : HistogramBase) (value : Sample) (bucket : Bucket) : Prop :=
  match histogram, bucket with
  | .histogram samples, .index i => i < samples.bucketRanges.bucketCount ∧
      samples.bucketRanges.range i ≤ value ∧ value < samples.bucketRanges.range (i + 1)
  | .sparseHistogram _, .value v => value = v
  | _, _ => False

instance (histogram : HistogramBase) (value : Sample) (bucket : Bucket) :
    Decidable (histogram.FallsIn value bucket) := by
  unfold FallsIn
  split <;> infer_instance

/-- The ranges are those of a histogram. -/
def Spanned (histogram : HistogramBase) : Prop := ∀ ranges, histogram.samples.layout = some ranges → ranges.Spans

theorem limited_bounds (samples : SampleVector) (value : Int) :
    0 ≤ limited (.histogram samples) value ∧ limited (.histogram samples) value < 2147483647 := by
  have high : (if value > 2147483646 then 2147483646 else value) ≤ 2147483646 := by
    split <;> omega
  have clamped (w : Int) (below : w ≤ 2147483646) :
      0 ≤ (if w < 0 then 0 else w) ∧ (if w < 0 then 0 else w) < 2147483647 := by
    constructor <;> split <;> omega
  exact clamped _ high

theorem isInt32_limited (histogram : HistogramBase) {value : Int} (int : IsInt32 value) :
    IsInt32 (histogram.limited value) := by
  cases histogram with
  | histogram samples =>
    have bounds := limited_bounds samples value
    exact ⟨by omega, by omega⟩
  | sparseHistogram samples => exact int

variable {histogram : HistogramBase}

/-- The search finds the one bucket of a value. -/
theorem bucketOf_limited (spanned : histogram.Spanned) (value : Sample) :
    ∃ bucket, histogram.bucketOf (histogram.limited value) = some bucket ∧
      ∀ other, histogram.FallsIn (histogram.limited value) other ↔ other = bucket := by
  cases histogram with
  | histogram samples =>
    have spans := spanned samples.bucketRanges rfl
    obtain ⟨least, most⟩ := limited_bounds samples value
    generalize limited (.histogram samples) value = v at least most ⊢
    have nonempty : 1 ≤ samples.bucketRanges.bucketCount := by
      by_contra empty
      have last := spans.last
      rw [Nat.lt_one_iff.mp (Nat.not_le.mp empty), spans.first] at last
      cases last
    have found := SampleVector.getBucketIndex_isSome_iff.mpr ⟨nonempty, spans.first ▸ least, spans.last ▸ most⟩
    obtain ⟨i, found⟩ := Option.isSome_iff_exists.mp found
    obtain ⟨inside, above, below⟩ := SampleVector.getBucketIndex_spec found
    refine ⟨.index i, congrArg (Option.map Bucket.index) found, ?_⟩
    intro other
    constructor
    · intro falls
      cases other with
      | value w => cases falls
      | index j =>
        obtain ⟨inside', above', below'⟩ := falls
        have size : samples.bucketRanges.bucketCount < samples.bucketRanges.size := by
          unfold BucketRanges.bucketCount at nonempty ⊢
          omega
        have ordered (k l : Nat) (less : k < l) (within : l < samples.bucketRanges.bucketCount) :
            samples.bucketRanges.range (k + 1) ≤ samples.bucketRanges.range l := by
          rcases Nat.lt_or_eq_of_le less with further | same
          · exact Int.le_of_lt (spans.increase _ _ further (within.trans size))
          · rw [← same]
        rcases Nat.lt_trichotomy j i with less | same | more
        · exact absurd ((ordered j i less inside).trans above) (not_le.mpr below')
        · rw [same]
        · exact absurd ((ordered i j more inside').trans above') (not_le.mpr below)
    · rintro rfl
      exact ⟨inside, above, below⟩
  | sparseHistogram samples =>
    refine ⟨.value value, rfl, ?_⟩
    intro other
    cases other with
    | index i => exact iff_of_false id nofun
    | value w =>
      change value = w ↔ _
      rw [Bucket.value.injEq, eq_comm]

theorem limited_of_layout {other : HistogramBase} (same : other.samples.layout = histogram.samples.layout) :
    other.limited = histogram.limited := by
  cases histogram <;> cases other <;> first | rfl | cases same

theorem bucketOf_of_layout {other : HistogramBase} (same : other.samples.layout = histogram.samples.layout) :
    other.bucketOf = histogram.bucketOf := by
  funext value
  cases histogram with
  | histogram samples =>
    cases other with
    | histogram others => rw [bucketOf, bucketOf, Option.some.inj same]
    | sparseHistogram others => cases same
  | sparseHistogram samples =>
    cases other with
    | histogram others => cases same
    | sparseHistogram others => rfl

end HistogramBase

/-! ### Runs -/

/-- The arguments of a call of `AddCount`. -/
abbrev Call := Int × Int

/-- What `AddCount` is called with: an `int` and a positive `int`. -/
structure IsCall (call : Call) : Prop where
  value : IsInt32 call.1
  positive : 0 < call.2

/-- The total of the counts. -/
def totalOf (calls : List Call) : Int := (calls.map Prod.snd).sum

/-- The total of the counts of the values in a bucket. -/
def countedIn (histogram : HistogramBase) (bucket : Bucket) (calls : List Call) : Int :=
  totalOf (calls.filter fun call => histogram.FallsIn (histogram.limited call.1) bucket)

/-- The exact sum of the values, each as often as it was counted. -/
def exactSum (histogram : HistogramBase) (calls : List Call) : Int :=
  (calls.map fun call => call.2 * histogram.limited call.1).sum

theorem totalOf_concat (calls : List Call) (call : Call) : totalOf (calls ++ [call]) = totalOf calls + call.2 := by
  simp [totalOf]

theorem exactSum_concat (histogram : HistogramBase) (calls : List Call) (call : Call) :
    exactSum histogram (calls ++ [call]) = exactSum histogram calls + call.2 * histogram.limited call.1 := by
  simp [exactSum]

theorem countedIn_concat (histogram : HistogramBase) (bucket : Bucket) (calls : List Call) (call : Call) :
    countedIn histogram bucket (calls ++ [call]) = countedIn histogram bucket calls +
      if histogram.FallsIn (histogram.limited call.1) bucket then call.2 else 0 := by
  unfold countedIn
  rw [List.filter_append, List.filter_singleton]
  by_cases falls : histogram.FallsIn (histogram.limited call.1) bucket
  · rw [decide_eq_true falls, if_pos falls]
    exact totalOf_concat _ call
  · rw [decide_eq_false falls, if_neg falls, Int.add_zero]
    exact congrArg totalOf (List.append_nil _)

variable {calls : List Call}

theorem totalOf_nonneg (valid : ∀ call ∈ calls, IsCall call) : 0 ≤ totalOf calls := by
  apply List.sum_nonneg
  intro count member
  obtain ⟨call, listed, rfl⟩ := List.mem_map.mp member
  exact Int.le_of_lt (valid call listed).positive

theorem countedIn_bounds (histogram : HistogramBase) (bucket : Bucket) (valid : ∀ call ∈ calls, IsCall call) :
    0 ≤ countedIn histogram bucket calls ∧ countedIn histogram bucket calls ≤ totalOf calls := by
  refine ⟨totalOf_nonneg fun call member => valid call (List.mem_filter.mp member).1, ?_⟩
  induction calls with
  | nil => exact Int.le_refl 0
  | cons call calls ih =>
    have rest := ih fun other member => valid other (List.mem_cons_of_mem call member)
    have positive := (valid call List.mem_cons_self).positive
    unfold countedIn totalOf at rest ⊢
    rw [List.filter_cons]
    split
    · simp only [List.map_cons, List.sum_cons]
      omega
    · simp only [List.map_cons, List.sum_cons]
      omega

theorem exactSum_bounds (histogram : HistogramBase) (valid : ∀ call ∈ calls, IsCall call) :
    -(totalOf calls * 2147483648) ≤ exactSum histogram calls ∧
      exactSum histogram calls ≤ totalOf calls * 2147483648 := by
  induction calls with
  | nil => exact ⟨Int.le_refl 0, Int.le_refl 0⟩
  | cons call calls ih =>
    have rest := ih fun other member => valid other (List.mem_cons_of_mem call member)
    obtain ⟨value, positive⟩ := valid call List.mem_cons_self
    obtain ⟨least, most⟩ := histogram.isInt32_limited value
    have low := Int.mul_le_mul_of_nonneg_left least (Int.le_of_lt positive)
    have high := Int.mul_le_mul_of_nonneg_left (Int.le_of_lt most) (Int.le_of_lt positive)
    unfold exactSum totalOf at rest ⊢
    rw [List.map_cons, List.sum_cons, List.map_cons, List.sum_cons, Int.add_mul]
    omega

/-- The state after some calls. -/
structure Tallied (histogram current : HistogramBase) (calls : List Call) : Prop where
  layout : current.samples.layout = histogram.samples.layout
  counts : ∀ bucket, current.samples.countIn bucket = countedIn histogram bucket calls
  sum : current.samples.sum = exactSum histogram calls
  redundant : current.samples.redundantCount = totalOf calls
  whole : current.samples.Whole

variable {histogram current : HistogramBase} {done : List Call}

theorem Tallied.fits (tallied : Tallied histogram current done) (valid : ∀ call ∈ done, IsCall call) {call : Call}
    (next : IsCall call) (few : totalOf (done ++ [call]) < 2147483648)
    (product : IsInt32 (call.2 * histogram.limited call.1)) (bucket : Bucket) :
    FitsInts current bucket (current.limited call.1) call.2 := by
  have same := HistogramBase.limited_of_layout tallied.layout
  have least := totalOf_nonneg valid
  obtain ⟨counted, countedMost⟩ := countedIn_bounds histogram bucket valid
  have bounds := exactSum_bounds histogram valid
  have positive := next.positive
  rw [totalOf_concat] at few
  rw [same]
  refine ⟨?_, product, ?_, ?_⟩
  · rw [tallied.counts]
    exact ⟨by omega, by omega⟩
  · rw [tallied.sum]
    obtain ⟨low, high⟩ := product
    exact ⟨by omega, by omega⟩
  · rw [tallied.redundant]
    exact ⟨by omega, by omega⟩

theorem Tallied.step {call : Call} (tallied : Tallied histogram current done) (spanned : histogram.Spanned)
    (positive : 0 < call.2) (added : current.addCountInt call.1 call.2 = some after) :
    Tallied histogram after (done ++ [call]) := by
  have limited := HistogramBase.limited_of_layout tallied.layout
  obtain ⟨bucket, found, _, grows⟩ := HistogramBase.addCountInt_grows positive added
  obtain ⟨only, found', unique⟩ := HistogramBase.bucketOf_limited spanned call.1
  rw [limited] at found grows
  rw [HistogramBase.bucketOf_of_layout tallied.layout, found'] at found
  cases found
  have tally := grows.tally
  constructor
  · rw [grows.layout, tallied.layout]
  · intro other
    have counts := congrFun (congrArg Prod.fst tally) other
    have single : after.samples.countIn other =
        current.samples.countIn other + (Pi.single bucket call.2 : Bucket → Int) other := counts
    rw [single, Pi.single_apply, tallied.counts, countedIn_concat]
    simp only [unique]
  · have sum : after.samples.sum = current.samples.sum + call.2 * histogram.limited call.1 :=
      congrArg (fun tally => tally.2.1) tally
    rw [sum, tallied.sum, exactSum_concat]
  · have redundant : after.samples.redundantCount = current.samples.redundantCount + call.2 :=
      congrArg (fun tally => tally.2.2) tally
    rw [redundant, tallied.redundant, totalOf_concat]
  · exact grows.whole tallied.whole

theorem tallied_of_constructed (constructed : HistogramSnapshotManager.Constructed histogram) :
    Tallied histogram histogram [] := by
  have empty : histogram.samples.tally = 0 ∧ histogram.samples.Whole := by
    cases constructed with
    | histogram made => exact (HistogramSamples.tally_new made).2
    | sparseHistogram id => exact ⟨HistogramSamples.tally_empty id, rfl⟩
  obtain ⟨tally, whole⟩ := empty
  exact ⟨rfl, fun bucket => congrFun (congrArg Prod.fst tally) bucket, congrArg (fun tally => tally.2.1) tally,
    congrArg (fun tally => tally.2.2) tally, whole⟩

/-- A run of `AddCount`. -/
def addCounts (histogram : HistogramBase) (calls : List Call) : Option HistogramBase :=
  calls.foldlM (fun current call => current.addCountInt call.1 call.2) histogram

/-- Where no product overflows, a run comes to its end, and the samples have counted its calls. -/
theorem Tallied.run (spanned : histogram.Spanned) (calls : List Call) (tallied : Tallied histogram current done)
    (valid : ∀ call ∈ done ++ calls, IsCall call) (few : totalOf (done ++ calls) < 2147483648)
    (products : ∀ call ∈ calls, IsInt32 (call.2 * histogram.limited call.1)) :
    ∃ after, addCounts current calls = some after ∧ Tallied histogram after (done ++ calls) := by
  induction calls generalizing current done with
  | nil => exact ⟨current, rfl, by rwa [List.append_nil]⟩
  | cons call calls ih =>
    have assoc : done ++ call :: calls = done ++ [call] ++ calls := by simp
    have next := valid call (List.mem_append_right done List.mem_cons_self)
    have validDone (other : Call) (member : other ∈ done) : IsCall other := valid other (List.mem_append_left _ member)
    rw [assoc] at valid few
    have fewer : totalOf (done ++ [call]) < 2147483648 := by
      have later := totalOf_nonneg fun other member => valid other (List.mem_append_right _ member)
      simp only [totalOf, List.map_append, List.sum_append] at few later ⊢
      omega
    obtain ⟨bucket, found, _⟩ := HistogramBase.bucketOf_limited spanned call.1
    rw [← HistogramBase.bucketOf_of_layout tallied.layout, ← HistogramBase.limited_of_layout tallied.layout] at found
    have fits := tallied.fits validDone next fewer (products call List.mem_cons_self) bucket
    obtain ⟨after, added⟩ := HistogramBase.addCountInt_of_fits next.positive found fits
    obtain ⟨last, run, end_⟩ := ih (tallied.step spanned next.positive added) valid few
      fun other member => products other (List.mem_cons_of_mem call member)
    refine ⟨last, ?_, by rwa [assoc]⟩
    rw [addCounts, List.foldlM_cons, added]
    exact run

theorem products_of_run (calls : List Call) (same : current.limited = histogram.limited)
    (valid : ∀ call ∈ calls, IsCall call) (run : addCounts current calls = some after) :
    ∀ call ∈ calls, IsInt32 (call.2 * histogram.limited call.1) := by
  induction calls generalizing current with
  | nil => nofun
  | cons call calls ih =>
    rw [addCounts, List.foldlM_cons] at run
    obtain ⟨next, added, rest⟩ := Option.bind_eq_some_iff.mp run
    obtain ⟨bucket, _, fits, grows⟩ :=
      HistogramBase.addCountInt_grows (valid call List.mem_cons_self).positive added
    have later := ih ((HistogramBase.limited_of_layout grows.layout).trans same)
      (fun other member => valid other (List.mem_cons_of_mem call member)) rest
    intro other member
    cases List.mem_cons.mp member with
    | inl first =>
      rw [first, ← same]
      exact fits.product
    | inr more => exact later other more

theorem foldlM_addInt32 (counts : List Int) {start : Int} (least : 0 ≤ start) (nonneg : ∀ count ∈ counts, 0 ≤ count)
    (few : start + counts.sum < 2147483648) : counts.foldlM addInt32 start = some (start + counts.sum) := by
  induction counts generalizing start with
  | nil => simp
  | cons count counts ih =>
    have first := nonneg count List.mem_cons_self
    have rest : 0 ≤ counts.sum := List.sum_nonneg fun other member => nonneg other (List.mem_cons_of_mem count member)
    rw [List.sum_cons] at few ⊢
    have fits : IsInt32 (start + count) := ⟨by omega, by omega⟩
    rw [List.foldlM_cons, addInt32, if_pos fits]
    have more := ih (Int.add_nonneg least first) (fun other member => nonneg other (List.mem_cons_of_mem count member))
      (by omega)
    rw [← Int.add_assoc]
    exact more

theorem Tallied.totalCountInt (tallied : Tallied histogram after calls) (valid : ∀ call ∈ calls, IsCall call)
    (few : totalOf calls < 2147483648) : after.samples.totalCountInt = some after.samples.redundantCount := by
  have nonneg (bucket : Bucket) : 0 ≤ after.samples.countIn bucket := by
    rw [tallied.counts]
    exact (countedIn_bounds histogram bucket valid).1
  have whole := tallied.whole
  have redundant := tallied.redundant
  unfold HistogramSamples.Whole at whole
  rw [← whole] at redundant ⊢
  cases after with
  | histogram samples =>
    have each : ∀ count ∈ samples.counts, (0 : Int) ≤ count := by
      intro count member
      obtain ⟨i, inside, rfl⟩ := List.mem_iff_getElem.mp member
      have stored : samples.getCountAtIndex i = samples.counts[i] := List.getD_eq_getElem _ _ inside
      exact stored ▸ nonneg (.index i)
    have small : 0 + samples.counts.sum < 2147483648 := (Int.zero_add _).trans_lt (redundant.trans_lt few)
    have total := foldlM_addInt32 samples.counts (Int.le_refl 0) each small
    rw [Int.zero_add] at total
    exact total
  | sparseHistogram samples =>
    have each : ∀ count ∈ samples.sampleCounts.entries.map (fun entry => entry.2), (0 : Int) ≤ count := by
      intro count member
      obtain ⟨entry, listed, rfl⟩ := List.mem_map.mp member
      have stored : samples.getCount entry.1 = entry.2 := by
        rw [SampleMap.getCount, samples.sampleCounts.find_eq_some_iff.mpr listed]
        rfl
      exact stored ▸ nonneg (.value entry.1)
    have small : 0 + (samples.sampleCounts.entries.map fun entry => entry.2).sum < 2147483648 :=
      (Int.zero_add _).trans_lt (redundant.trans_lt few)
    have total := foldlM_addInt32 _ (Int.le_refl 0) each small
    rw [Int.zero_add] at total
    exact total

/-! ### The aggregates -/

/-- What the samples hold after the calls: each value has one bucket, which the search finds, and the counts, the sum
and the two total counts are those of the calls. -/
structure Accounts (histogram after : HistogramBase) (calls : List Call) : Prop where
  index : ∀ value, ∃ bucket, histogram.bucketOf (histogram.limited value) = some bucket ∧
    ∀ other, histogram.FallsIn (histogram.limited value) other ↔ other = bucket
  counts : ∀ bucket, after.samples.countIn bucket = countedIn histogram bucket calls
  sum : after.samples.sum = exactSum histogram calls
  total : after.samples.totalCountInt = some after.samples.redundantCount

/-- A run that comes to its end with the right aggregates. -/
def Accounted (histogram : HistogramBase) (calls : List Call) : Prop :=
  ∃ after, addCounts histogram calls = some after ∧ Accounts histogram after calls

/-- The samples of either kind are accounted for exactly when every product of a count and a value is an `int`. -/
theorem accounted_iff {histogram : HistogramBase} (constructed : HistogramSnapshotManager.Constructed histogram)
    (spanned : histogram.Spanned) {calls : List Call} (valid : ∀ call ∈ calls, IsCall call)
    (few : totalOf calls < 2147483648) :
    Accounted histogram calls ↔ ∀ call ∈ calls, IsInt32 (call.2 * histogram.limited call.1) := by
  constructor
  · rintro ⟨after, run, _⟩
    exact products_of_run calls rfl valid run
  · intro products
    obtain ⟨after, run, tallied⟩ := (tallied_of_constructed constructed).run spanned calls valid few products
    exact ⟨after, run, HistogramBase.bucketOf_limited spanned, tallied.counts, tallied.sum,
      tallied.totalCountInt valid few⟩

/-- A histogram with two buckets. -/
def twoBuckets : SampleVector where
  id := 0
  sum := 0
  redundantCount := 0
  bucketRanges := ⟨[0, 1, 2147483647], 0⟩
  counts := [0, 0]
  sized := rfl

theorem twoBuckets_spanned : (HistogramBase.histogram twoBuckets).Spanned := by
  intro ranges same
  cases same
  refine ⟨?_, rfl, rfl⟩
  intro i j less within
  have each : ∀ j < 3, ∀ i < j, twoBuckets.bucketRanges.range i < twoBuckets.bucketRanges.range j := by decide
  exact each j within i less

theorem twoBuckets_constructed : HistogramSnapshotManager.Constructed (.histogram twoBuckets) :=
  .histogram (show SampleVector.new 0 twoBuckets.bucketRanges = some twoBuckets from rfl)

theorem isCall_single {call : Call} (is_ : IsCall call) : ∀ other ∈ [call], IsCall other := by
  intro other member
  rwa [List.mem_singleton.mp member]

theorem accounted_iff_twoBuckets : Accounted (.histogram twoBuckets) [(7, 2)] ↔
    ∀ call ∈ [((7, 2) : Call)], IsInt32 (call.2 * (HistogramBase.histogram twoBuckets).limited call.1) :=
  accounted_iff twoBuckets_constructed twoBuckets_spanned (isCall_single ⟨by decide, by decide⟩) (by decide)

/-- Three thousand samples of a million. -/
theorem not_accounted_large : ¬∀ (histogram : HistogramBase) (calls : List Call),
    HistogramSnapshotManager.Constructed histogram → histogram.Spanned → (∀ call ∈ calls, IsCall call) →
      totalOf calls < 2147483648 → Accounted histogram calls := by
  intro accounted
  obtain ⟨after, run, _⟩ := accounted (.histogram twoBuckets) [(1000000, 3000)] twoBuckets_constructed
    twoBuckets_spanned (isCall_single ⟨by decide, by decide⟩) (by decide)
  have overflows : addCounts (.histogram twoBuckets) [(1000000, 3000)] = none := rfl
  rw [overflows] at run
  cases run

end Libchrome.Base.Metrics
