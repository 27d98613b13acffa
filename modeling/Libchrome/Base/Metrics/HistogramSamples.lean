import Mathlib.Algebra.Ring.Int.Defs
import Mathlib.Data.Int.Order.Basic
import Libchrome.Library.OrderedMap

/-! # `BucketRanges` -/

namespace Libchrome.Base.Metrics

/-- `HistogramBase::Sample`. -/
abbrev Sample := Int

/-- `HistogramBase::Count`. Counters are integers without bound: a run in which none overflows is a run
of these. -/
abbrev Count := Int

/-- `HistogramBase::kSampleType_MAX`. -/
def sampleTypeMax : Sample := 2147483647

def crcTable : Array (BitVec 32) :=
  #[0x0, 0x77073096, 0xee0e612c, 0x990951ba, 0x76dc419, 0x706af48f, 0xe963a535, 0x9e6495a3,
    0xedb8832, 0x79dcb8a4, 0xe0d5e91e, 0x97d2d988, 0x9b64c2b, 0x7eb17cbd, 0xe7b82d07, 0x90bf1d91,
    0x1db71064, 0x6ab020f2, 0xf3b97148, 0x84be41de, 0x1adad47d, 0x6ddde4eb, 0xf4d4b551, 0x83d385c7,
    0x136c9856, 0x646ba8c0, 0xfd62f97a, 0x8a65c9ec, 0x14015c4f, 0x63066cd9, 0xfa0f3d63, 0x8d080df5,
    0x3b6e20c8, 0x4c69105e, 0xd56041e4, 0xa2677172, 0x3c03e4d1, 0x4b04d447, 0xd20d85fd, 0xa50ab56b,
    0x35b5a8fa, 0x42b2986c, 0xdbbbc9d6, 0xacbcf940, 0x32d86ce3, 0x45df5c75, 0xdcd60dcf, 0xabd13d59,
    0x26d930ac, 0x51de003a, 0xc8d75180, 0xbfd06116, 0x21b4f4b5, 0x56b3c423, 0xcfba9599, 0xb8bda50f,
    0x2802b89e, 0x5f058808, 0xc60cd9b2, 0xb10be924, 0x2f6f7c87, 0x58684c11, 0xc1611dab, 0xb6662d3d,
    0x76dc4190, 0x1db7106, 0x98d220bc, 0xefd5102a, 0x71b18589, 0x6b6b51f, 0x9fbfe4a5, 0xe8b8d433,
    0x7807c9a2, 0xf00f934, 0x9609a88e, 0xe10e9818, 0x7f6a0dbb, 0x86d3d2d, 0x91646c97, 0xe6635c01,
    0x6b6b51f4, 0x1c6c6162, 0x856530d8, 0xf262004e, 0x6c0695ed, 0x1b01a57b, 0x8208f4c1, 0xf50fc457,
    0x65b0d9c6, 0x12b7e950, 0x8bbeb8ea, 0xfcb9887c, 0x62dd1ddf, 0x15da2d49, 0x8cd37cf3, 0xfbd44c65,
    0x4db26158, 0x3ab551ce, 0xa3bc0074, 0xd4bb30e2, 0x4adfa541, 0x3dd895d7, 0xa4d1c46d, 0xd3d6f4fb,
    0x4369e96a, 0x346ed9fc, 0xad678846, 0xda60b8d0, 0x44042d73, 0x33031de5, 0xaa0a4c5f, 0xdd0d7cc9,
    0x5005713c, 0x270241aa, 0xbe0b1010, 0xc90c2086, 0x5768b525, 0x206f85b3, 0xb966d409, 0xce61e49f,
    0x5edef90e, 0x29d9c998, 0xb0d09822, 0xc7d7a8b4, 0x59b33d17, 0x2eb40d81, 0xb7bd5c3b, 0xc0ba6cad,
    0xedb88320, 0x9abfb3b6, 0x3b6e20c, 0x74b1d29a, 0xead54739, 0x9dd277af, 0x4db2615, 0x73dc1683,
    0xe3630b12, 0x94643b84, 0xd6d6a3e, 0x7a6a5aa8, 0xe40ecf0b, 0x9309ff9d, 0xa00ae27, 0x7d079eb1,
    0xf00f9344, 0x8708a3d2, 0x1e01f268, 0x6906c2fe, 0xf762575d, 0x806567cb, 0x196c3671, 0x6e6b06e7,
    0xfed41b76, 0x89d32be0, 0x10da7a5a, 0x67dd4acc, 0xf9b9df6f, 0x8ebeeff9, 0x17b7be43, 0x60b08ed5,
    0xd6d6a3e8, 0xa1d1937e, 0x38d8c2c4, 0x4fdff252, 0xd1bb67f1, 0xa6bc5767, 0x3fb506dd, 0x48b2364b,
    0xd80d2bda, 0xaf0a1b4c, 0x36034af6, 0x41047a60, 0xdf60efc3, 0xa867df55, 0x316e8eef, 0x4669be79,
    0xcb61b38c, 0xbc66831a, 0x256fd2a0, 0x5268e236, 0xcc0c7795, 0xbb0b4703, 0x220216b9, 0x5505262f,
    0xc5ba3bbe, 0xb2bd0b28, 0x2bb45a92, 0x5cb36a04, 0xc2d7ffa7, 0xb5d0cf31, 0x2cd99e8b, 0x5bdeae1d,
    0x9b64c2b0, 0xec63f226, 0x756aa39c, 0x26d930a, 0x9c0906a9, 0xeb0e363f, 0x72076785, 0x5005713,
    0x95bf4a82, 0xe2b87a14, 0x7bb12bae, 0xcb61b38, 0x92d28e9b, 0xe5d5be0d, 0x7cdcefb7, 0xbdbdf21,
    0x86d3d2d4, 0xf1d4e242, 0x68ddb3f8, 0x1fda836e, 0x81be16cd, 0xf6b9265b, 0x6fb077e1, 0x18b74777,
    0x88085ae6, 0xff0f6a70, 0x66063bca, 0x11010b5c, 0x8f659eff, 0xf862ae69, 0x616bffd3, 0x166ccf45,
    0xa00ae278, 0xd70dd2ee, 0x4e048354, 0x3903b3c2, 0xa7672661, 0xd06016f7, 0x4969474d, 0x3e6e77db,
    0xaed16a4a, 0xd9d65adc, 0x40df0b66, 0x37d83bf0, 0xa9bcae53, 0xdebb9ec5, 0x47b2cf7f, 0x30b5ffe9,
    0xbdbdf21c, 0xcabac28a, 0x53b39330, 0x24b4a3a6, 0xbad03605, 0xcdd70693, 0x54de5729, 0x23d967bf,
    0xb3667a2e, 0xc4614ab8, 0x5d681b02, 0x2a6f2b94, 0xb40bbe37, 0xc30c8ea1, 0x5a05df1b, 0x2d02ef8d]

/-- The bytes of a sample, as they lie in memory. -/
def sampleBytes (value : Sample) : List (BitVec 32) :=
  let bits := BitVec.ofInt 32 value
  [bits &&& 0xff, bits >>> 8 &&& 0xff, bits >>> 16 &&& 0xff, bits >>> 24 &&& 0xff]

/-- `Crc32`, with `kUseRealCrc`. -/
def crc32 (sum : BitVec 32) (value : Sample) : BitVec 32 :=
  (sampleBytes value).foldl
    (fun sum byte => crcTable.getD (sum &&& 0xff ^^^ byte).toNat 0 ^^^ sum >>> 8) sum

structure BucketRanges where
  ranges : List Sample
  checksum : BitVec 32
  deriving DecidableEq, Repr

namespace BucketRanges

def size (ranges : BucketRanges) : Nat :=
  ranges.ranges.length

def range (ranges : BucketRanges) (i : Nat) : Sample :=
  ranges.ranges.getD i 0

def bucketCount (ranges : BucketRanges) : Nat :=
  ranges.size - 1

def calculateChecksum (ranges : BucketRanges) : BitVec 32 :=
  ranges.ranges.foldl crc32 (BitVec.ofNat 32 ranges.size)

def hasValidChecksum (ranges : BucketRanges) : Bool :=
  ranges.calculateChecksum = ranges.checksum

def resetChecksum (ranges : BucketRanges) : BucketRanges :=
  { ranges with checksum := ranges.calculateChecksum }

/-- The starts of the buckets increase. -/
def StartsIncrease (ranges : BucketRanges) : Prop :=
  ∀ i j, i < j → j < ranges.bucketCount → ranges.range i < ranges.range j

theorem hasValidChecksum_resetChecksum (ranges : BucketRanges) : ranges.resetChecksum.hasValidChecksum :=
  decide_eq_true rfl

end BucketRanges

/-! # `HistogramSamples`, `SampleVector`, `SampleMap` and their iterators -/

open Library

/-- What `SampleCountIterator::Get` gives. -/
structure SampleCount where
  min : Sample
  max : Sample
  count : Count
  deriving DecidableEq, Repr

/-- A `SampleCountIterator`, as the buckets from its position on. -/
abbrev SampleCountIterator := List SampleCount

def skipEmptyBuckets : SampleCountIterator → SampleCountIterator
  | [] => []
  | bucket :: rest => if bucket.count = 0 then skipEmptyBuckets rest else bucket :: rest

/-- `HistogramSamples::Operator`. -/
inductive Operator where
  | add
  | subtract
  deriving DecidableEq, Repr

def Operator.apply (op : Operator) (old count : Count) : Count :=
  old + if op = .add then count else -count

/-- A `SampleVector`: a count for each bucket of its ranges. -/
structure SampleVector where
  id : UInt64
  sum : Int
  redundantCount : Count
  bucketRanges : BucketRanges
  counts : List Count
  sized : counts.length = bucketRanges.bucketCount
  deriving DecidableEq

namespace SampleVector

/-- The constructor, with its check. -/
def new (id : UInt64) (bucketRanges : BucketRanges) : Option SampleVector :=
  if 1 ≤ bucketRanges.bucketCount then
    some
      { id
        sum := 0
        redundantCount := 0
        bucketRanges
        counts := List.replicate bucketRanges.bucketCount 0
        sized := List.length_replicate }
  else none

/-- The loop of `GetBucketIndex`. Each turn narrows the search, so `turns` need not exceed the number of
buckets. -/
def searchBucket (ranges : BucketRanges) (value : Sample) : (turns under beyond : Nat) → Nat
  | 0, under, _ => under
  | turns + 1, under, beyond =>
    let mid := under + (beyond - under) / 2
    if mid = under then mid
    else if ranges.range mid ≤ value then searchBucket ranges value turns mid beyond
    else searchBucket ranges value turns under mid

/-- `GetBucketIndex`; a failed check gives nothing. -/
def getBucketIndex (ranges : BucketRanges) (value : Sample) : Option Nat :=
  let bucketCount := ranges.bucketCount
  if 1 ≤ bucketCount ∧ ranges.range 0 ≤ value ∧ value < ranges.range bucketCount then
    let mid := searchBucket ranges value bucketCount 0 bucketCount
    if value < ranges.range (mid + 1) then some mid else none
  else none

def accumulate (samples : SampleVector) (value : Sample) (count : Count) : Option SampleVector :=
  (getBucketIndex samples.bucketRanges value).map fun bucketIndex =>
    { samples with
      counts := samples.counts.set bucketIndex (samples.counts.getD bucketIndex 0 + count)
      sum := samples.sum + count * value
      redundantCount := samples.redundantCount + count
      sized := List.length_set.trans samples.sized }

def totalCount (samples : SampleVector) : Count :=
  samples.counts.sum

def getCountAtIndex (samples : SampleVector) (bucketIndex : Nat) : Count :=
  samples.counts.getD bucketIndex 0

/-- The buckets from an index on, with the counts given for them. -/
def bucketsFrom (ranges : BucketRanges) : Nat → List Count → SampleCountIterator
  | _, [] => []
  | index, count :: rest =>
    ⟨ranges.range index, ranges.range (index + 1), count⟩ :: bucketsFrom ranges (index + 1) rest

def iterator (samples : SampleVector) : SampleCountIterator :=
  skipEmptyBuckets (bucketsFrom samples.bucketRanges 0 samples.counts)

/-- The loop of `AddSubtractImpl`. Each turn passes a bucket or an entry of the iterator, which bounds
`turns`. -/
def addSubtractFrom (ranges : BucketRanges) (op : Operator) :
    (turns index : Nat) → SampleCountIterator → List Count → List Count × Bool
  | 0, _, iter, counts => (counts, iter.isEmpty)
  | _ + 1, _, [], counts => (counts, true)
  | turns + 1, index, bucket :: rest, counts =>
    if index < counts.length then
      if bucket.min = ranges.range index ∧ bucket.max = ranges.range (index + 1) then
        addSubtractFrom ranges op turns index (skipEmptyBuckets rest)
          (counts.set index (op.apply (counts.getD index 0) bucket.count))
      else if ranges.range index < bucket.min then
        addSubtractFrom ranges op turns (index + 1) (bucket :: rest) counts
      else (counts, false)
    else (counts, false)

@[simp] theorem length_addSubtractFrom (ranges : BucketRanges) (op : Operator) (turns index : Nat)
    (iter : SampleCountIterator) (counts : List Count) :
    (addSubtractFrom ranges op turns index iter counts).1.length = counts.length := by
  fun_induction addSubtractFrom ranges op turns index iter counts with
  | case1 | case2 | case5 | case6 => rfl
  | case3 _ _ _ _ _ _ _ ih => rw [ih, List.length_set]
  | case4 _ _ _ _ _ _ _ _ ih => exact ih

def addSubtractImpl (samples : SampleVector) (iter : SampleCountIterator) (op : Operator) :
    SampleVector × Bool :=
  let result := addSubtractFrom samples.bucketRanges op (samples.counts.length + iter.length) 0 iter samples.counts
  ({ samples with
      counts := result.1
      sized := (length_addSubtractFrom ..).trans samples.sized }, result.2)

end SampleVector

/-- A `SampleMap`: a count for each value seen. -/
structure SampleMap where
  id : UInt64
  sum : Int := 0
  redundantCount : Count := 0
  sampleCounts : OrderedMap Sample Count := .empty

namespace SampleMap

/-- `sample_counts_[value] += count`, or `-=`. -/
def change (op : Operator) (value : Sample) (count : Count) (counts : OrderedMap Sample Count) :
    OrderedMap Sample Count :=
  counts.update value fun old => op.apply (old.getD 0) count

def accumulate (samples : SampleMap) (value : Sample) (count : Count) : SampleMap :=
  { samples with
    sampleCounts := change .add value count samples.sampleCounts
    sum := samples.sum + count * value
    redundantCount := samples.redundantCount + count }

def getCount (samples : SampleMap) (value : Sample) : Count :=
  (samples.sampleCounts.find value).getD 0

def totalCount (samples : SampleMap) : Count :=
  (samples.sampleCounts.entries.map fun entry => entry.2).sum

def buckets (counts : List (Sample × Count)) : SampleCountIterator :=
  counts.map fun entry => ⟨entry.1, entry.1 + 1, entry.2⟩

def iterator (samples : SampleMap) : SampleCountIterator :=
  skipEmptyBuckets (buckets samples.sampleCounts.entries)

/-- The loop of `AddSubtractImpl`, of at most as many turns as the iterator has entries. -/
def addSubtractFrom (op : Operator) :
    (turns : Nat) → SampleCountIterator → OrderedMap Sample Count → OrderedMap Sample Count × Bool
  | 0, iter, counts => (counts, iter.isEmpty)
  | _ + 1, [], counts => (counts, true)
  | turns + 1, bucket :: rest, counts =>
    if bucket.min + 1 = bucket.max then
      addSubtractFrom op turns (skipEmptyBuckets rest) (change op bucket.min bucket.count counts)
    else (counts, false)

def addSubtractImpl (samples : SampleMap) (iter : SampleCountIterator) (op : Operator) : SampleMap × Bool :=
  let result := addSubtractFrom op iter.length iter samples.sampleCounts
  ({ samples with sampleCounts := result.1 }, result.2)

end SampleMap

inductive HistogramSamples where
  | vector (samples : SampleVector)
  | map (samples : SampleMap)

namespace HistogramSamples

def id : HistogramSamples → UInt64
  | vector samples => samples.id
  | map samples => samples.id

def sum : HistogramSamples → Int
  | vector samples => samples.sum
  | map samples => samples.sum

def redundantCount : HistogramSamples → Count
  | vector samples => samples.redundantCount
  | map samples => samples.redundantCount

def totalCount : HistogramSamples → Count
  | vector samples => samples.totalCount
  | map samples => samples.totalCount

def iterator : HistogramSamples → SampleCountIterator
  | vector samples => samples.iterator
  | map samples => samples.iterator

/-- `Add` and `Subtract`: the sum and the redundant count are changed before the buckets. Whether the
buckets matched is only asserted. -/
def addSubtract (op : Operator) (samples other : HistogramSamples) : HistogramSamples :=
  match samples with
  | vector samples =>
    vector
      ({ samples with
          sum := op.apply samples.sum other.sum
          redundantCount := op.apply samples.redundantCount other.redundantCount }.addSubtractImpl
        other.iterator op).1
  | map samples =>
    map
      ({ samples with
          sum := op.apply samples.sum other.sum
          redundantCount := op.apply samples.redundantCount other.redundantCount }.addSubtractImpl
        other.iterator op).1

def add (samples other : HistogramSamples) : HistogramSamples :=
  samples.addSubtract .add other

def subtract (samples other : HistogramSamples) : HistogramSamples :=
  samples.addSubtract .subtract other

end HistogramSamples

/-!
# Histograms and `HistogramSnapshotManager`

The histograms, the manager and its flattener as one machine: an action adds a sample to a histogram or
calls `PrepareDelta` for it. A failed `CHECK` leaves no state. The calls of the flattener are recorded.
-/

/-- A `Histogram` with its `samples_`, which share its `bucket_ranges_`, or a `SparseHistogram`. -/
inductive HistogramBase where
  | histogram (samples : SampleVector)
  | sparseHistogram (samples : SampleMap)

/-! The flags of `HistogramBase::Inconsistency`. -/

def noInconsistencies : Nat := 0x0
def rangeChecksumError : Nat := 0x1
def bucketOrderError : Nat := 0x2
def countHighError : Nat := 0x4
def countLowError : Nat := 0x8

/-- `Histogram::kCommonRaceBasedCountMismatch`. -/
def commonRaceBasedCountMismatch : Count := 5

/-- The part of `Histogram::FindCorruption` about the ranges: the flags after the buckets from an index on. -/
def findOrderError : (previousRange : Sample) → (newRanges : List Sample) → Nat
  | _, [] => noInconsistencies
  | previousRange, newRange :: rest =>
    (if newRange ≤ previousRange then bucketOrderError else noInconsistencies) ||| findOrderError newRange rest

/-- The part about the counts. -/
def findCountError (delta64 : Int) : Nat :=
  if delta64 = 0 then noInconsistencies
  else
    let delta := if delta64 < -2147483648 ∨ 2147483647 < delta64 then 2147483647 else delta64
    if 0 < delta then if commonRaceBasedCountMismatch < delta then countHighError else noInconsistencies
    else if commonRaceBasedCountMismatch < -delta then countLowError
    else noInconsistencies

namespace HistogramBase

def nameHash : HistogramBase → UInt64
  | histogram samples => samples.id
  | sparseHistogram samples => samples.id

/-- The samples that the histogram holds. -/
def samples : HistogramBase → HistogramSamples
  | histogram samples => .vector samples
  | sparseHistogram samples => .map samples

/-- `AddCount`: only a `Histogram` limits the value. -/
def addCount (value : Sample) (count : Count) : HistogramBase → Option HistogramBase
  | histogram samples =>
    let value := if sampleTypeMax - 1 < value then sampleTypeMax - 1 else value
    let value := if value < 0 then 0 else value
    if count ≤ 0 then some (histogram samples) else (samples.accumulate value count).map histogram
  | sparseHistogram samples =>
    if count ≤ 0 then some (sparseHistogram samples) else some (sparseHistogram (samples.accumulate value count))

def snapshotSamples : HistogramBase → Option HistogramSamples
  | histogram samples =>
    (SampleVector.new samples.id samples.bucketRanges).map fun snapshot =>
      HistogramSamples.add (.vector snapshot) (.vector samples)
  | sparseHistogram samples => some (HistogramSamples.add (.map { id := samples.id }) (.map samples))

/-- `FindCorruption`, which a `SparseHistogram` does not override. -/
def findCorruption (snapshot : HistogramSamples) : HistogramBase → Nat
  | histogram samples =>
    let ranges := samples.bucketRanges
    findOrderError (-1) (ranges.ranges.take ranges.bucketCount) |||
      (if ranges.hasValidChecksum then noInconsistencies else rangeChecksumError) |||
      findCountError (snapshot.redundantCount - snapshot.totalCount)
  | sparseHistogram _ => noInconsistencies

end HistogramBase

/-- The calls of the `HistogramFlattener`. A delta comes with the hash of its histogram. -/
inductive FlattenerCall where
  | recordDelta (nameHash : UInt64) (delta : HistogramSamples)
  | inconsistencyDetected (problem : Nat)
  | uniqueInconsistencyDetected (problem : Nat)
  | inconsistencyDetectedInLoggedCount (amount : Count)

/-- The histograms, the members of the manager, and the calls of the flattener so far, oldest first.
`latest` is the snapshot that the last `PrepareDelta` of a histogram took. -/
structure HistogramSnapshotManager where
  histograms : List HistogramBase
  loggedSamples : UInt64 → Option HistogramSamples := fun _ => none
  inconsistencies : UInt64 → Nat := fun _ => 0
  calls : List FlattenerCall := []
  latest : UInt64 → Option HistogramSamples := fun _ => none

namespace HistogramSnapshotManager

/-- `map[key] = value`. -/
def assign {V : Type} (map : UInt64 → V) (key : UInt64) (value : V) : UInt64 → V :=
  fun other => if other = key then value else map other

/-- The branch of `PrepareDelta` that reports corrupt counts and records nothing. -/
def reportCorruption (s : HistogramSnapshotManager) (histogramHash : UInt64) (corruption : Nat) :
    HistogramSnapshotManager :=
  let detected := s.calls ++ [.inconsistencyDetected corruption]
  let oldCorruption := s.inconsistencies histogramHash
  if oldCorruption = corruption ||| oldCorruption then { s with calls := detected }
  else
    { s with
      inconsistencies := assign s.inconsistencies histogramHash (oldCorruption ||| corruption)
      calls := detected ++ [.uniqueInconsistencyDetected corruption] }

/-- `InspectLoggedSamplesInconsistency`: the logged samples that it leaves, and its calls. -/
def inspectLoggedSamplesInconsistency (newSnapshot loggedSamples : HistogramSamples) :
    HistogramSamples × List FlattenerCall :=
  let discrepancy := loggedSamples.totalCount - loggedSamples.redundantCount
  if discrepancy = 0 then (loggedSamples, [])
  else
    (if commonRaceBasedCountMismatch < discrepancy then
        (loggedSamples.subtract loggedSamples).add newSnapshot
      else loggedSamples,
      [.inconsistencyDetectedInLoggedCount discrepancy])

/-- The end of `PrepareDelta`: what is logged afterwards, what is to be recorded, and the calls before. -/
def settle (snapshot : HistogramSamples) :
    Option HistogramSamples → HistogramSamples × HistogramSamples × List FlattenerCall
  | none => (snapshot, snapshot, [])
  | some alreadyLogged =>
    let (alreadyLogged, calls) := inspectLoggedSamplesInconsistency snapshot alreadyLogged
    let delta := snapshot.subtract alreadyLogged
    (alreadyLogged.add delta, delta, calls)

def logDelta (s : HistogramSnapshotManager) (histogramHash : UInt64) (snapshot : HistogramSamples) :
    HistogramSnapshotManager :=
  let (logged, toLog, calls) := settle snapshot (s.loggedSamples histogramHash)
  { s with
    loggedSamples := assign s.loggedSamples histogramHash (some logged)
    calls := s.calls ++ calls ++ if 0 < toLog.totalCount then [.recordDelta histogramHash toLog] else [] }

def prepareDelta (s : HistogramSnapshotManager) (histogram : HistogramBase) :
    Option HistogramSnapshotManager :=
  histogram.snapshotSamples.bind fun snapshot =>
    let corruption := histogram.findCorruption snapshot
    if bucketOrderError &&& corruption ≠ 0 then none
    else if rangeChecksumError &&& corruption ≠ 0 then none
    else
      let s := { s with latest := assign s.latest histogram.nameHash (some snapshot) }
      if corruption ≠ 0 then some (s.reportCorruption histogram.nameHash corruption)
      else some (s.logDelta histogram.nameHash snapshot)

inductive Action where
  | addCount (index : Nat) (value : Sample) (count : Count)
  | prepareDelta (index : Nat)

def step (s : HistogramSnapshotManager) : Action → Option HistogramSnapshotManager
  | .addCount index value count => do
    let histogram ← s.histograms[index]?
    let histogram ← histogram.addCount value count
    some { s with histograms := s.histograms.set index histogram }
  | .prepareDelta index => do s.prepareDelta (← s.histograms[index]?)

/-- The deltas recorded for a histogram by some calls. -/
def deltasIn (histogramHash : UInt64) (calls : List FlattenerCall) : List HistogramSamples :=
  calls.filterMap fun
    | .recordDelta nameHash delta => if nameHash = histogramHash then some delta else none
    | _ => none

/-- The deltas recorded for a histogram, oldest first. -/
def recordedDeltas (s : HistogramSnapshotManager) (histogramHash : UInt64) : List HistogramSamples :=
  deltasIn histogramHash s.calls

end HistogramSnapshotManager

end Libchrome.Base.Metrics
