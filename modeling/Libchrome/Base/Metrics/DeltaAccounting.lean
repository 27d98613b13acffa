import Mathlib.Algebra.Group.Pi.Lemmas
import Mathlib.Data.List.Nodup
import Libchrome.Library.Machine
import Libchrome.Library.Reporting
import Libchrome.Base.Metrics.SampleTallies

/-!
# The deltas account for the snapshots

To its tallies, a histogram and the manager are an account: an added sample lets its value grow, and
`PrepareDelta` reports what was added since the last report.
-/

namespace Libchrome.Base.Metrics

open Library

/-- The total count agrees with the redundant one. -/
def HistogramSamples.Whole (samples : HistogramSamples) : Prop :=
  samples.totalCount = samples.redundantCount

/-- The size of a tally is its redundant count. -/
def tallySize : Tally →+ ℤ where
  toFun tally := tally.2.2
  map_zero' := rfl
  map_add' _ _ := rfl

/-! ### Corrupt ranges -/

theorem findOrderError_cases (previousRange : Sample) (newRanges : List Sample) :
    findOrderError previousRange newRanges = bucketOrderError ∨
      findOrderError previousRange newRanges = noInconsistencies ∧
        (previousRange :: newRanges).Pairwise (· < ·) := by
  induction newRanges generalizing previousRange with
  | nil => exact .inr ⟨rfl, List.pairwise_singleton _ _⟩
  | cons newRange rest ih =>
    rw [findOrderError]
    split
    next =>
      left
      rcases ih newRange with wrong | ⟨right, -⟩
      · rw [wrong]
        rfl
      · rw [right]
        rfl
    next above =>
      rcases ih newRange with wrong | ⟨right, increase⟩
      · left
        rw [wrong]
        rfl
      · right
        rw [right]
        refine ⟨rfl, List.pairwise_cons.mpr ⟨fun other member => ?_, increase⟩⟩
        have below := Int.not_le.mp above
        rcases List.mem_cons.mp member with rfl | member
        · exact below
        · exact below.trans ((List.pairwise_cons.mp increase).1 other member)

theorem startsIncrease_of_pairwise {ranges : BucketRanges}
    (increase : (ranges.ranges.take ranges.bucketCount).Pairwise (· < ·)) : ranges.StartsIncrease := by
  intro i j before inside
  have fits : ranges.bucketCount ≤ ranges.ranges.length := Nat.sub_le _ _
  have length : (ranges.ranges.take ranges.bucketCount).length = ranges.bucketCount := by
    rw [List.length_take, Nat.min_eq_left fits]
  have ordered := List.pairwise_iff_getElem.mp increase i j (by omega) (by omega) before
  rw [List.getElem_take, List.getElem_take] at ordered
  rw [BucketRanges.range, BucketRanges.range, List.getD_eq_getElem _ _ (by omega),
    List.getD_eq_getElem _ _ (by omega)]
  exact ordered

theorem orderly_of_passed {histogram : HistogramBase} {snapshot : HistogramSamples}
    (order : bucketOrderError &&& histogram.findCorruption snapshot = 0) :
    HistogramSamples.Orderly histogram.samples.layout := by
  cases histogram with
  | sparseHistogram samples =>
    intro ranges none_
    cases none_
  | histogram samples =>
    intro ranges same
    obtain rfl := Option.some.inj same
    rw [HistogramBase.findCorruption, Nat.and_or_distrib_left, Nat.or_eq_zero_iff, Nat.and_or_distrib_left,
      Nat.or_eq_zero_iff] at order
    rcases findOrderError_cases (-1) (samples.bucketRanges.ranges.take samples.bucketRanges.bucketCount) with
      wrong | ⟨-, increase⟩
    · rw [wrong] at order
      cases order.1.1
    · exact startsIncrease_of_pairwise (List.pairwise_cons.mp increase).2

theorem findCorruption_of_passed {histogram : HistogramBase} {snapshot : HistogramSamples} (whole : snapshot.Whole)
    (order : bucketOrderError &&& histogram.findCorruption snapshot = 0)
    (checksum : rangeChecksumError &&& histogram.findCorruption snapshot = 0) :
    histogram.findCorruption snapshot = 0 := by
  cases histogram with
  | sparseHistogram samples => rfl
  | histogram samples =>
    have counts : findCountError (snapshot.redundantCount - snapshot.totalCount) = noInconsistencies := by
      rw [whole, sub_self]
      rfl
    simp only [HistogramBase.findCorruption, counts] at order checksum ⊢
    rcases findOrderError_cases (-1) (samples.bucketRanges.ranges.take samples.bucketRanges.bucketCount) with
      wrong | ⟨right, -⟩
    · rw [wrong] at order
      split at order
      · cases order
      · cases order
    · rw [right] at checksum ⊢
      split at checksum
      next valid =>
        rw [if_pos valid]
        rfl
      next => cases checksum

/-! ### Added samples -/

/-- What an added sample does to a histogram. -/
structure Grows (before after : HistogramBase) (growth : Tally) : Prop where
  nameHash : after.nameHash = before.nameHash
  layout : after.samples.layout = before.samples.layout
  tally : after.samples.tally = before.samples.tally + growth
  whole : before.samples.Whole → after.samples.Whole

/-- Samples of one value, counted in one bucket. -/
def counted (bucket : Bucket) (value : Sample) (count : Count) : Tally :=
  (Pi.single bucket count, count * value, count)

theorem tally_eq_add_counted {before after : HistogramSamples} {bucket : Bucket} {value : Sample} {count : Count}
    (counts : ∀ other, after.countIn other = before.countIn other + if other = bucket then count else 0)
    (sum : after.sum = before.sum + count * value)
    (redundant : after.redundantCount = before.redundantCount + count) :
    after.tally = before.tally + counted bucket value count := by
  have each : after.countIn = before.countIn + Pi.single bucket count := by
    funext other
    rw [counts, Pi.add_apply, Pi.single_apply]
  rw [HistogramSamples.tally, each, sum, redundant]
  rfl

theorem SampleVector.accumulate_grows {samples after : SampleVector} {value : Sample} {count : Count}
    (accumulated : samples.accumulate value count = some after) :
    ∃ i, getBucketIndex samples.bucketRanges value = some i ∧
      Grows (.histogram samples) (.histogram after) (counted (.index i) value count) := by
  obtain ⟨i, found, rfl⟩ := Option.map_eq_some_iff.mp accumulated
  have inside : i < samples.counts.length := samples.sized ▸ (getBucketIndex_spec found).1
  refine ⟨i, found, rfl, rfl, tally_eq_add_counted ?_ rfl rfl, ?_⟩
  · intro bucket
    cases bucket with
    | value v => exact (add_zero 0).symm
    | index j =>
      change (samples.counts.set i _)[j]?.getD 0 = samples.counts[j]?.getD 0 + _
      by_cases here : j = i
      · subst here
        rw [List.getElem?_set_self inside, if_pos rfl, Option.getD_some]
        rfl
      · rw [List.getElem?_set_ne (Ne.symm here), if_neg (fun same => here (Bucket.index.inj same)), add_zero]
  · intro whole
    change (samples.counts.set i _).sum = samples.redundantCount + count
    rw [List.sum_set', dif_pos inside, List.getD_eq_getElem _ _ inside, neg_add_cancel_left]
    exact congrArg (· + count) whole

theorem SampleMap.accumulate_grows (samples : SampleMap) (value : Sample) (count : Count) :
    Grows (.sparseHistogram samples) (.sparseHistogram (samples.accumulate value count))
      (counted (.value value) value count) := by
  refine ⟨rfl, rfl, tally_eq_add_counted ?_ rfl rfl, ?_⟩
  · intro bucket
    cases bucket with
    | index i => exact (add_zero 0).symm
    | value v =>
      simp only [Bucket.value.injEq, eq_comm (a := v)]
      exact SampleMap.countOf_change .add value v count samples.sampleCounts
  · intro whole
    change SampleMap.totalOf (SampleMap.change .add value count samples.sampleCounts) = samples.redundantCount + count
    rw [SampleMap.totalOf_change]
    exact congrArg (· + count) whole

theorem addCount_grows {before after : HistogramBase} {value : Sample} {count : Count}
    (added : before.addCount value count = some after) :
    after = before ∨ ∃ growth, 0 < tallySize growth ∧ Grows before after growth := by
  cases before with
  | histogram samples =>
    rw [HistogramBase.addCount] at added
    split at added
    next => exact .inl (Option.some.inj added).symm
    next positive =>
      obtain ⟨grown, accumulated, rfl⟩ := Option.map_eq_some_iff.mp added
      obtain ⟨i, _, grows⟩ := samples.accumulate_grows accumulated
      exact .inr ⟨_, Int.not_le.mp positive, grows⟩
  | sparseHistogram samples =>
    rw [HistogramBase.addCount] at added
    split at added
    next => exact .inl (Option.some.inj added).symm
    next positive =>
      obtain rfl := Option.some.inj added
      exact .inr ⟨_, Int.not_le.mp positive, samples.accumulate_grows value count⟩

/-! ### Snapshots and deltas -/

namespace HistogramSamples

variable {samples other snapshot : HistogramSamples}

theorem whole_addSubtract {op : Operator} (same : other.layout = samples.layout) (orderly : Orderly samples.layout)
    (whole : samples.Whole) (otherWhole : other.Whole) : (samples.addSubtract op other).Whole := by
  rw [Whole, (addSubtract_counts same orderly).2, redundantCount_addSubtract, whole, otherWhole]

/-- The samples that a snapshot starts from. -/
theorem tally_new {id : UInt64} {ranges : BucketRanges} {empty : SampleVector}
    (made : SampleVector.new id ranges = some empty) :
    empty.bucketRanges = ranges ∧ (vector empty).tally = 0 ∧ (vector empty).Whole := by
  obtain ⟨-, made⟩ := Option.ite_none_right_eq_some.mp made
  obtain rfl := Option.some.inj made
  refine ⟨rfl, ?_, ?_⟩
  · refine Prod.ext (funext fun bucket => ?_) rfl
    cases bucket with
    | value v => rfl
    | index i =>
      change (List.replicate ranges.bucketCount (0 : Count)).getD i 0 = 0
      rw [List.getD_eq_getElem?_getD, List.getElem?_replicate]
      split
      · rfl
      · rfl
  · change (List.replicate ranges.bucketCount (0 : Count)).sum = 0
    rw [List.sum_replicate, nsmul_zero]

theorem tally_empty (id : UInt64) : (map { id }).tally = 0 := by
  refine Prod.ext (funext fun bucket => ?_) rfl
  cases bucket with
  | value v => rfl
  | index i => rfl

end HistogramSamples

theorem layout_snapshotSamples {histogram : HistogramBase} {snapshot : HistogramSamples}
    (taken : histogram.snapshotSamples = some snapshot) : snapshot.layout = histogram.samples.layout := by
  cases histogram with
  | histogram samples =>
    obtain ⟨empty, made, rfl⟩ := Option.map_eq_some_iff.mp taken
    exact congrArg some (HistogramSamples.tally_new made).1
  | sparseHistogram samples =>
    obtain rfl := Option.some.inj taken
    rfl

theorem snapshotSamples_spec {histogram : HistogramBase} {snapshot : HistogramSamples}
    (taken : histogram.snapshotSamples = some snapshot) (orderly : HistogramSamples.Orderly histogram.samples.layout) :
    snapshot.tally = histogram.samples.tally ∧ (histogram.samples.Whole → snapshot.Whole) := by
  cases histogram with
  | histogram samples =>
    obtain ⟨empty, made, rfl⟩ := Option.map_eq_some_iff.mp taken
    obtain ⟨ranges, tally, whole⟩ := HistogramSamples.tally_new made
    have same : (HistogramSamples.vector samples).layout = (HistogramSamples.vector empty).layout :=
      congrArg some ranges.symm
    constructor
    · rw [HistogramSamples.add, HistogramSamples.addSubtract_tally same (same ▸ orderly), tally]
      exact zero_add _
    · exact HistogramSamples.whole_addSubtract same (same ▸ orderly) whole
  | sparseHistogram samples =>
    obtain rfl := Option.some.inj taken
    have same : (HistogramSamples.map samples).layout = (HistogramSamples.map { id := samples.id }).layout := rfl
    constructor
    · rw [HistogramSamples.add, HistogramSamples.addSubtract_tally same orderly, HistogramSamples.tally_empty]
      exact zero_add _
    · exact HistogramSamples.whole_addSubtract same orderly rfl

namespace HistogramSnapshotManager

/-- What the manager has logged for a histogram with some layout. -/
structure Logged (ranges : Option BucketRanges) (logged : HistogramSamples) : Prop where
  layout : logged.layout = ranges
  orderly : HistogramSamples.Orderly ranges
  whole : logged.Whole

/-- The snapshot becomes what is logged, and its change from what was logged before is what is to be recorded. -/
theorem settle_spec {layout : Option BucketRanges} {snapshot : HistogramSamples} (taken : Logged layout snapshot)
    {before : Option HistogramSamples} (logged : ∀ samples, before = some samples → Logged layout samples) :
    ∃ after toLog, settle snapshot before = (after, toLog, []) ∧ Logged layout after ∧
      after.tally = snapshot.tally ∧ toLog.Whole ∧
      toLog.tally = snapshot.tally - (before.map HistogramSamples.tally).getD 0 := by
  cases before with
  | none => exact ⟨snapshot, snapshot, rfl, taken, rfl, taken.whole, (sub_zero _).symm⟩
  | some alreadyLogged =>
    have old := logged alreadyLogged rfl
    have consistent : inspectLoggedSamplesInconsistency snapshot alreadyLogged = (alreadyLogged, []) := by
      rw [inspectLoggedSamplesInconsistency, old.whole, sub_self]
      rfl
    have same : alreadyLogged.layout = snapshot.layout := old.layout.trans taken.layout.symm
    have orderly : HistogramSamples.Orderly snapshot.layout := taken.layout ▸ taken.orderly
    have change : (snapshot.subtract alreadyLogged).tally = snapshot.tally - alreadyLogged.tally :=
      HistogramSamples.addSubtract_tally same orderly
    have changeWhole : (snapshot.subtract alreadyLogged).Whole :=
      HistogramSamples.whole_addSubtract same orderly taken.whole old.whole
    have back : (snapshot.subtract alreadyLogged).layout = alreadyLogged.layout :=
      HistogramSamples.layout_addSubtract.trans same.symm
    have oldOrderly : HistogramSamples.Orderly alreadyLogged.layout := same ▸ orderly
    refine ⟨alreadyLogged.add (snapshot.subtract alreadyLogged), snapshot.subtract alreadyLogged, ?_, ?_, ?_,
      changeWhole, change⟩
    · rw [settle, consistent]
    · exact
        { layout := HistogramSamples.layout_addSubtract.trans old.layout
          orderly := taken.orderly
          whole := HistogramSamples.whole_addSubtract back oldOrderly old.whole changeWhole }
    · calc (alreadyLogged.add (snapshot.subtract alreadyLogged)).tally
          = alreadyLogged.tally + (snapshot.subtract alreadyLogged).tally :=
            HistogramSamples.addSubtract_tally back oldOrderly
        _ = snapshot.tally := by rw [change, add_sub_cancel]

/-- The account of a histogram. -/
def account (s : HistogramSnapshotManager) (histogram : HistogramBase) : Account Tally where
  value := histogram.samples.tally
  logged := (s.loggedSamples histogram.nameHash).map HistogramSamples.tally
  reported := (s.recordedDeltas histogram.nameHash).map HistogramSamples.tally

/-- The books of a histogram are in order. -/
structure Accounted (s : HistogramSnapshotManager) (histogram : HistogramBase) : Prop where
  whole : histogram.samples.Whole
  settled : (s.account histogram).Settled tallySize
  logged : ∀ samples, s.loggedSamples histogram.nameHash = some samples → Logged histogram.samples.layout samples
  latest : (s.latest histogram.nameHash).map HistogramSamples.tally =
    (s.loggedSamples histogram.nameHash).map HistogramSamples.tally

structure Consistent (s : HistogramSnapshotManager) : Prop where
  distinct : (s.histograms.map HistogramBase.nameHash).Nodup
  accounted : ∀ histogram ∈ s.histograms, s.Accounted histogram

variable {s after : HistogramSnapshotManager} {histogram : HistogramBase}

theorem Accounted.setHistograms (accounted : s.Accounted histogram) (histograms : List HistogramBase) :
    { s with histograms }.Accounted histogram :=
  ⟨accounted.whole, accounted.settled, accounted.logged, accounted.latest⟩

theorem Accounted.grow (accounted : s.Accounted histogram) {grown : HistogramBase} {growth : Tally}
    (positive : 0 < tallySize growth) (grows : Grows histogram grown growth) : s.Accounted grown where
  whole := grows.whole accounted.whole
  settled := by
    have same : s.account grown = (s.account histogram).grow growth := by
      rw [account, grows.nameHash, grows.tally]
      rfl
    rw [same]
    exact accounted.settled.grow positive
  logged := by
    rw [grows.nameHash, grows.layout]
    exact accounted.logged
  latest := by
    rw [grows.nameHash]
    exact accounted.latest

theorem assign_self {V : Type} (map : UInt64 → V) (key : UInt64) (value : V) : assign map key value key = value :=
  if_pos rfl

theorem assign_of_ne {V : Type} (map : UInt64 → V) {key other : UInt64} (different : other ≠ key) (value : V) :
    assign map key value other = map other :=
  if_neg different

theorem deltasIn_append (histogramHash : UInt64) (calls more : List FlattenerCall) :
    deltasIn histogramHash (calls ++ more) = deltasIn histogramHash calls ++ deltasIn histogramHash more :=
  List.filterMap_append

/-- What `PrepareDelta` changes for the histogram with some hash: the snapshot becomes what is logged, and
its change is recorded unless it is empty. -/
structure Logs (before : HistogramSnapshotManager) (histogram : HistogramBase) (snapshot logged toLog : HistogramSamples)
    (after : HistogramSnapshotManager) : Prop where
  histograms : after.histograms = before.histograms
  latest : after.latest = assign before.latest histogram.nameHash (some snapshot)
  loggedSamples : after.loggedSamples = assign before.loggedSamples histogram.nameHash (some logged)
  recorded : after.recordedDeltas histogram.nameHash =
    before.recordedDeltas histogram.nameHash ++ if 0 < toLog.totalCount then [toLog] else []
  recordedOther : ∀ other, other ≠ histogram.nameHash → after.recordedDeltas other = before.recordedDeltas other

theorem logs_logDelta {snapshot logged toLog : HistogramSamples}
    (settled : settle snapshot (s.loggedSamples histogram.nameHash) = (logged, toLog, [])) :
    Logs s histogram snapshot logged toLog
      ({ s with latest := assign s.latest histogram.nameHash (some snapshot) }.logDelta histogram.nameHash snapshot) := by
  simp only [HistogramSnapshotManager.logDelta, settled, List.append_nil]
  refine ⟨rfl, rfl, rfl, ?_, fun other different => ?_⟩
  · rw [recordedDeltas, deltasIn_append, recordedDeltas, List.append_cancel_left_eq]
    split
    next => exact List.filterMap_cons_some (if_pos rfl)
    next => rfl
  · rw [recordedDeltas, deltasIn_append, recordedDeltas, List.append_right_eq_self]
    split
    next => exact List.filterMap_cons_none (if_neg different.symm)
    next => rfl

/-- `PrepareDelta` of a histogram in order passes its checks only to log an exact snapshot. -/
theorem prepareDelta_spec (accounted : s.Accounted histogram) (prepared : s.prepareDelta histogram = some after) :
    ∃ snapshot logged toLog, Logs s histogram snapshot logged toLog after ∧
      Logged histogram.samples.layout logged ∧ snapshot.tally = histogram.samples.tally ∧
      logged.tally = snapshot.tally ∧ toLog.Whole ∧ toLog.tally = (s.account histogram).delta := by
  obtain ⟨snapshot, taken, prepared⟩ := Option.bind_eq_some_iff.mp prepared
  obtain ⟨order, prepared⟩ := Option.ite_none_left_eq_some.mp prepared
  obtain ⟨checksum, prepared⟩ := Option.ite_none_left_eq_some.mp prepared
  have orderly := orderly_of_passed (not_not.mp order)
  obtain ⟨tally, wholeSnapshot⟩ := snapshotSamples_spec taken orderly
  have whole := wholeSnapshot accounted.whole
  have clean := findCorruption_of_passed whole (not_not.mp order) (not_not.mp checksum)
  rw [if_neg (not_not.mpr clean)] at prepared
  obtain rfl := Option.some.inj prepared
  obtain ⟨logged, toLog, settled, own, same, wholeDelta, delta⟩ :=
    settle_spec ⟨layout_snapshotSamples taken, orderly, whole⟩ accounted.logged
  rw [tally] at delta
  exact ⟨snapshot, logged, toLog, logs_logDelta settled, own, tally, same, wholeDelta, delta⟩

/-- `PrepareDelta` is a report of the account. -/
theorem Accounted.prepareDelta (accounted : s.Accounted histogram) (prepared : s.prepareDelta histogram = some after) :
    after.Accounted histogram := by
  obtain ⟨snapshot, logged, toLog, logs, own, tally, same, whole, delta⟩ := prepareDelta_spec accounted prepared
  refine ⟨accounted.whole, ?_, ?_, ?_⟩
  · have size : toLog.totalCount = tallySize (s.account histogram).delta := by
      rw [← delta, whole]
      rfl
    have books : after.account histogram = (s.account histogram).report tallySize := by
      rw [account, logs.recorded, logs.loggedSamples, assign_self, Option.map_some, same, tally, List.map_append,
        Account.report, ← size, ← delta]
      congr 1
      split
      next => rfl
      next => exact List.append_nil _
    rw [books]
    exact accounted.settled.report
  · intro samples found
    rw [logs.loggedSamples, assign_self] at found
    exact Option.some.inj found ▸ own
  · rw [logs.latest, logs.loggedSamples, assign_self, assign_self, Option.map_some, Option.map_some, same]

theorem Accounted.prepareDelta_of_ne {other : HistogramBase} (accounted : s.Accounted other)
    (own : s.Accounted histogram) (prepared : s.prepareDelta histogram = some after)
    (different : other.nameHash ≠ histogram.nameHash) : after.Accounted other := by
  obtain ⟨snapshot, logged, toLog, logs, -⟩ := prepareDelta_spec own prepared
  refine ⟨accounted.whole, ?_, ?_, ?_⟩
  · have books : after.account other = s.account other := by
      rw [account, logs.recordedOther _ different, logs.loggedSamples, assign_of_ne _ different]
      rfl
    rw [books]
    exact accounted.settled
  · rw [logs.loggedSamples, assign_of_ne _ different]
    exact accounted.logged
  · rw [logs.latest, logs.loggedSamples, assign_of_ne _ different, assign_of_ne _ different]
    exact accounted.latest

theorem step_consistent {action : Action} (consistent : s.Consistent) (moved : s.step action = some after) :
    after.Consistent := by
  cases action with
  | addCount index value count =>
    obtain ⟨histogram, found, moved⟩ := Option.bind_eq_some_iff.mp moved
    obtain ⟨grown, added, moved⟩ := Option.bind_eq_some_iff.mp moved
    obtain rfl := Option.some.inj moved
    obtain ⟨inside, rfl⟩ := List.getElem?_eq_some_iff.mp found
    have own := consistent.accounted _ (List.getElem_mem inside)
    rcases addCount_grows added with rfl | ⟨growth, positive, grows⟩
    · rw [List.set_getElem_self]
      exact consistent
    · refine ⟨?_, fun other member => ?_⟩
      · have same : (s.histograms.set index grown).map HistogramBase.nameHash =
            s.histograms.map HistogramBase.nameHash := by
          rw [List.map_set, grows.nameHash, ← List.getElem_map HistogramBase.nameHash, List.set_getElem_self]
          exact (List.length_map _).symm ▸ inside
        rw [same]
        exact consistent.distinct
      · rcases List.mem_or_eq_of_mem_set member with member | rfl
        · exact (consistent.accounted other member).setHistograms _
        · exact (own.grow positive grows).setHistograms _
  | prepareDelta index =>
    obtain ⟨histogram, found, prepared⟩ := Option.bind_eq_some_iff.mp moved
    obtain ⟨inside, rfl⟩ := List.getElem?_eq_some_iff.mp found
    have own := consistent.accounted _ (List.getElem_mem inside)
    obtain ⟨_, _, _, logs, -⟩ := prepareDelta_spec own prepared
    refine ⟨logs.histograms ▸ consistent.distinct, fun other member => ?_⟩
    rw [logs.histograms] at member
    by_cases same : other.nameHash = s.histograms[index].nameHash
    · have equal := List.inj_on_of_nodup_map consistent.distinct member (List.getElem_mem inside) same
      rw [equal]
      exact own.prepareDelta prepared
    · exact (consistent.accounted other member).prepareDelta_of_ne own prepared same

/-- A histogram as its constructor leaves it. -/
inductive Constructed : HistogramBase → Prop where
  | histogram {id : UInt64} {bucketRanges : BucketRanges} {samples : SampleVector}
      (made : SampleVector.new id bucketRanges = some samples) : Constructed (.histogram samples)
  | sparseHistogram (id : UInt64) : Constructed (.sparseHistogram { id })

theorem Constructed.accounted {histograms : List HistogramBase} (constructed : Constructed histogram) :
    ({ histograms } : HistogramSnapshotManager).Accounted histogram := by
  have empty : histogram.samples.tally = 0 ∧ histogram.samples.Whole := by
    cases constructed with
    | histogram made => exact (HistogramSamples.tally_new made).2
    | sparseHistogram id => exact ⟨HistogramSamples.tally_empty id, rfl⟩
  refine ⟨empty.2, ?_, (fun _ none_ => by cases none_), rfl⟩
  have books : ({ histograms } : HistogramSnapshotManager).account histogram = ⟨0, none, []⟩ := by
    rw [account, empty.1]
    rfl
  rw [books]
  exact .empty

def fewRanges : BucketRanges :=
  BucketRanges.resetChecksum { ranges := [0, 1, 4, sampleTypeMax], checksum := 0 }

def twoHistograms : List HistogramBase :=
  [.histogram { id := 1, sum := 0, redundantCount := 0, bucketRanges := fewRanges, counts := [0, 0, 0], sized := rfl },
    .sparseHistogram { id := 2 }]

theorem twoHistograms_constructed : ∀ histogram ∈ twoHistograms, Constructed histogram := by
  intro histogram member
  rcases List.mem_cons.mp member with rfl | member
  · exact .histogram (show SampleVector.new 1 fewRanges = some _ from rfl)
  · obtain rfl := List.mem_singleton.mp member
    exact .sparseHistogram 2

/-- Samples of a vector and of a map, with `PrepareDelta` in between. -/
def interleavedRun : List Action :=
  [.addCount 0 1 2, .prepareDelta 0, .addCount 1 (-7) 3, .addCount 0 5 1, .prepareDelta 1, .prepareDelta 0,
    .addCount 1 9 1, .prepareDelta 1, .prepareDelta 0]

end HistogramSnapshotManager

end Libchrome.Base.Metrics
