import Libchrome.Base.Metrics.SampleAccounting
import Libchrome.Base.PickleReading

/-!
# Samples in pickles

`Serialize` writes the filled buckets one after another, without their number. `AddFromPickle` reads entries until
a read fails, so samples are the last item of their pickle.
-/

namespace Libchrome.Base.Metrics

open Library Bytes

/-- What a `SampleCountIterator` of some class does: `Get`, unless it is `Done`, and `Next`. -/
structure SampleIteration (I : Type) where
  get : I → Option SampleCount
  next : I → I

/-- The iterators over a vector or a map. -/
def bucketIteration : SampleIteration SampleCountIterator where
  get := List.head?
  next := fun iter => skipEmptyBuckets iter.tail

/-- The loop of `AddSubtractImpl`, with an iterator of any class. -/
def SampleVector.addSubtractOver {I : Type} (iteration : SampleIteration I) (ranges : BucketRanges) (op : Operator) :
    (turns index : Nat) → I → List Count → (List Count × Bool) × I
  | 0, _, iter, counts => ((counts, (iteration.get iter).isNone), iter)
  | turns + 1, index, iter, counts =>
    match iteration.get iter with
    | none => ((counts, true), iter)
    | some bucket =>
      if index < counts.length then
        if bucket.min = ranges.range index ∧ bucket.max = ranges.range (index + 1) then
          addSubtractOver iteration ranges op turns index (iteration.next iter)
            (counts.set index (op.apply (counts.getD index 0) bucket.count))
        else if ranges.range index < bucket.min then
          addSubtractOver iteration ranges op turns (index + 1) iter counts
        else ((counts, false), iter)
      else ((counts, false), iter)

/-- The loop of `AddSubtractImpl` on a map. -/
def SampleMap.addSubtractOver {I : Type} (iteration : SampleIteration I) (op : Operator) :
    (turns : Nat) → I → OrderedMap Sample Count → (OrderedMap Sample Count × Bool) × I
  | 0, iter, counts => ((counts, (iteration.get iter).isNone), iter)
  | turns + 1, iter, counts =>
    match iteration.get iter with
    | none => ((counts, true), iter)
    | some bucket =>
      if bucket.min + 1 = bucket.max then
        addSubtractOver iteration op turns (iteration.next iter) (change op bucket.min bucket.count counts)
      else ((counts, false), iter)

theorem SampleVector.addSubtractOver_buckets (ranges : BucketRanges) (op : Operator) (turns index : Nat)
    (iter : SampleCountIterator) (counts : List Count) :
    (addSubtractOver bucketIteration ranges op turns index iter counts).1 =
      addSubtractFrom ranges op turns index iter counts := by
  fun_induction addSubtractFrom ranges op turns index iter counts with
  | case1 _ iter => cases iter <;> rfl
  | case2 => rfl
  | case3 _ _ _ _ _ inside same ih =>
    rw [addSubtractOver]
    simp only [bucketIteration, List.head?_cons, if_pos inside, if_pos same]
    exact ih
  | case4 _ _ _ _ _ inside different larger ih =>
    rw [addSubtractOver]
    simp only [bucketIteration, List.head?_cons, if_pos inside, if_neg different, if_pos larger]
    exact ih
  | case5 _ _ _ _ _ inside different smaller =>
    rw [addSubtractOver]
    simp only [bucketIteration, List.head?_cons, if_pos inside, if_neg different, if_neg smaller]
  | case6 _ _ _ _ _ outside =>
    rw [addSubtractOver]
    simp only [bucketIteration, List.head?_cons, if_neg outside]

theorem SampleMap.addSubtractOver_buckets (op : Operator) (turns : Nat) (iter : SampleCountIterator)
    (counts : OrderedMap Sample Count) :
    (addSubtractOver bucketIteration op turns iter counts).1 = addSubtractFrom op turns iter counts := by
  fun_induction addSubtractFrom op turns iter counts with
  | case1 iter => cases iter <;> rfl
  | case2 => rfl
  | case3 _ _ _ _ single ih =>
    rw [addSubtractOver]
    simp only [bucketIteration, List.head?_cons, if_pos single]
    exact ih
  | case4 _ _ _ _ wide =>
    rw [addSubtractOver]
    simp only [bucketIteration, List.head?_cons, if_neg wide]

/-- Iterators related so that they give the same entries. -/
structure SampleIteration.Simulates {I J : Type} (one : SampleIteration I) (two : SampleIteration J)
    (Related : I → J → Prop) : Prop where
  get : ∀ {first second}, Related first second → one.get first = two.get second
  next : ∀ {first second bucket}, Related first second → one.get first = some bucket →
    Related (one.next first) (two.next second)

section Simulation

variable {I J : Type} {one : SampleIteration I} {two : SampleIteration J} {Related : I → J → Prop}

theorem SampleVector.addSubtractOver_simulates (simulates : one.Simulates two Related) (ranges : BucketRanges)
    (op : Operator) (turns index : Nat) {first : I} {second : J} (related : Related first second)
    (counts : List Count) :
    (addSubtractOver one ranges op turns index first counts).1 =
      (addSubtractOver two ranges op turns index second counts).1 := by
  induction turns generalizing index first second counts with
  | zero => rw [addSubtractOver, addSubtractOver, simulates.get related]
  | succ turns ih =>
    have same := simulates.get related
    rw [addSubtractOver, addSubtractOver, ← same]
    cases entry : one.get first with
    | none => rfl
    | some bucket =>
      have after := simulates.next related entry
      simp only
      split_ifs with inside starts larger
      · exact ih index after _
      · exact ih (index + 1) related counts
      · rfl
      · rfl

theorem SampleMap.addSubtractOver_simulates (simulates : one.Simulates two Related) (op : Operator) (turns : Nat)
    {first : I} {second : J} (related : Related first second) (counts : OrderedMap Sample Count) :
    (addSubtractOver one op turns first counts).1 = (addSubtractOver two op turns second counts).1 := by
  induction turns generalizing first second counts with
  | zero => rw [addSubtractOver, addSubtractOver, simulates.get related]
  | succ turns ih =>
    have same := simulates.get related
    rw [addSubtractOver, addSubtractOver, ← same]
    cases entry : one.get first with
    | none => rfl
    | some bucket =>
      have after := simulates.next related entry
      simp only
      split_ifs with single
      · exact ih after _
      · rfl

end Simulation

/-- The entries that an iterator gives. -/
def visited : SampleCountIterator → List SampleCount
  | [] => []
  | bucket :: rest => bucket :: rest.filter (·.count ≠ 0)

theorem visited_skipEmptyBuckets (iter : SampleCountIterator) :
    visited (skipEmptyBuckets iter) = iter.filter (·.count ≠ 0) := by
  induction iter with
  | nil => rfl
  | cons bucket rest ih =>
    by_cases empty : bucket.count = 0
    · rw [skipEmptyBuckets_of_empty empty, ih, List.filter_cons_of_neg (by simpa using empty)]
    · rw [skipEmptyBuckets_of_filled empty, List.filter_cons_of_pos (by simpa using empty)]
      rfl

theorem length_visited_le (iter : SampleCountIterator) : (visited iter).length ≤ iter.length := by
  cases iter with
  | nil => exact Nat.le_refl _
  | cons bucket rest => exact Nat.succ_le_succ (List.length_filter_le _ _)

/-- A turn for each bucket and each entry is enough: further ones change nothing. -/
theorem SampleVector.addSubtractFrom_enough (ranges : BucketRanges) (op : Operator) {turns index : Nat}
    {iter : SampleCountIterator} {counts : List Count}
    (enough : counts.length - index + (visited iter).length ≤ turns) (more : Nat) :
    addSubtractFrom ranges op (turns + more) index iter counts = addSubtractFrom ranges op turns index iter counts := by
  fun_induction addSubtractFrom ranges op turns index iter counts with
  | case1 _ iter =>
    cases iter with
    | nil => exact addSubtractFrom_nil _ _ _
    | cons bucket rest => cases enough.not_gt (Nat.lt_of_lt_of_le (Nat.succ_pos _) (Nat.le_add_left _ _))
  | case2 => exact addSubtractFrom_nil _ _ _
  | case3 turns _ bucket rest _ inside same ih =>
    rw [Nat.succ_add, addSubtractFrom, if_pos inside, if_pos same]
    apply ih
    rw [visited_skipEmptyBuckets, List.length_set]
    rw [visited, List.length_cons] at enough
    omega
  | case4 turns _ bucket rest _ inside different larger ih =>
    rw [Nat.succ_add, addSubtractFrom, if_pos inside, if_neg different, if_pos larger]
    apply ih
    omega
  | case5 _ _ _ _ _ inside different smaller =>
    rw [Nat.succ_add, addSubtractFrom, if_pos inside, if_neg different, if_neg smaller]
  | case6 _ _ _ _ _ outside => rw [Nat.succ_add, addSubtractFrom, if_neg outside]

theorem SampleMap.addSubtractFrom_enough (op : Operator) {turns : Nat} {iter : SampleCountIterator}
    {counts : OrderedMap Sample Count} (enough : (visited iter).length ≤ turns) (more : Nat) :
    addSubtractFrom op (turns + more) iter counts = addSubtractFrom op turns iter counts := by
  fun_induction addSubtractFrom op turns iter counts with
  | case1 iter =>
    cases iter with
    | nil => cases more <;> rfl
    | cons bucket rest => cases enough.not_gt (Nat.succ_pos _)
  | case2 turns => rw [Nat.succ_add, addSubtractFrom]
  | case3 _ bucket rest _ single ih =>
    rw [Nat.succ_add, addSubtractFrom, if_pos single]
    apply ih
    rw [visited_skipEmptyBuckets]
    exact Nat.le_of_succ_le_succ enough
  | case4 _ _ _ _ wide => rw [Nat.succ_add, addSubtractFrom, if_neg wide]

/-- The bytes of an entry. -/
def SampleCount.encoding (bucket : SampleCount) : List Byte :=
  encode 4 (BitVec.ofInt 32 bucket.min).toNat ++
    (encode 4 (BitVec.ofInt 32 bucket.max).toNat ++ encode 4 (BitVec.ofInt 32 bucket.count).toNat)

/-- An entry of three `int`s. -/
structure SampleCount.IsInt (bucket : SampleCount) : Prop where
  min : IsInt32 bucket.min
  max : IsInt32 bucket.max
  count : IsInt32 bucket.count

theorem length_encodings (entries : List SampleCount) :
    (entries.flatMap SampleCount.encoding).length = 12 * entries.length := by
  induction entries with
  | nil => rfl
  | cons bucket entries ih =>
    rw [List.flatMap_cons, List.length_append, ih, SampleCount.encoding, List.length_append, List.length_append,
      length_encode, length_encode, length_encode, List.length_cons]
    omega

/-- A `SampleCountPickleIterator`. -/
structure SampleCountPickleIterator where
  iter : PickleIterator
  /-- What `Get` gives, unless the iterator is done. -/
  entry : Option SampleCount

namespace SampleCountPickleIterator

open PickleIterator

def readEntry : Reader SampleCount := do
  let min ← readInt
  let max ← readInt
  let count ← readInt
  return ⟨min.toInt, max.toInt, count.toInt⟩

/-- The constructor, and `Next`: a failed read is the end. -/
def new (iter : PickleIterator) : SampleCountPickleIterator :=
  ⟨(readEntry iter).2, (readEntry iter).1⟩

def iteration : SampleIteration SampleCountPickleIterator where
  get := entry
  next := fun pickled => new pickled.iter

theorem toInt_ofInt {value : Int} (bounded : IsInt32 value) : (BitVec.ofInt 32 value).toInt = value :=
  BitVec.toInt_ofInt_eq_self (by decide) bounded.1 bounded.2

theorem reads_entry {bucket : SampleCount} (bounded : bucket.IsInt) :
    PickleIterator.Reads readEntry bucket.encoding bucket := by
  have words (min max count : BitVec 32) :
      PickleIterator.Reads readEntry (encode 4 min.toNat ++ (encode 4 max.toNat ++ encode 4 count.toNat))
        ⟨min.toInt, max.toInt, count.toInt⟩ := by
    have last := (reads_int count).map fun count => (⟨min.toInt, max.toInt, count.toInt⟩ : SampleCount)
    exact (reads_int min).bind ((reads_int max).bind last)
  have read := words (BitVec.ofInt 32 bucket.min) (BitVec.ofInt 32 bucket.max) (BitVec.ofInt 32 bucket.count)
  rwa [toInt_ofInt bounded.min, toInt_ofInt bounded.max, toInt_ofInt bounded.count] at read

theorem failsAtEnd_readEntry : FailsAtEnd readEntry :=
  ((failsAtEnd_type (by decide)).bind _).bind _ |>.bind _

/-- The pickle iterator stands at the first of `entries` and has the others ahead. -/
def Pending : List SampleCount → SampleCountPickleIterator → Prop
  | [], pickled => pickled.entry = none
  | bucket :: rest, pickled => pickled.entry = some bucket ∧ Ahead pickled.iter (rest.flatMap SampleCount.encoding)

theorem pending_new {entries : List SampleCount} (bounded : ∀ bucket ∈ entries, bucket.IsInt) {iter : PickleIterator}
    (ahead : Ahead iter (entries.flatMap SampleCount.encoding)) : Pending entries (new iter) := by
  cases entries with
  | nil => exact failsAtEnd_readEntry iter ahead
  | cons bucket rest =>
    obtain ⟨later, read, left⟩ := reads_entry (bounded bucket List.mem_cons_self) iter _ ahead
    rw [new, read]
    exact ⟨rfl, left⟩

/-- The iterator over some samples, and one over their pickled entries. -/
structure Follows (iter : SampleCountIterator) (pickled : SampleCountPickleIterator) : Prop where
  bounded : ∀ bucket ∈ visited iter, bucket.IsInt
  pending : Pending (visited iter) pickled

theorem simulates : bucketIteration.Simulates iteration Follows where
  get {iter pickled} follows := by
    have pending := follows.pending
    cases iter with
    | nil => exact Eq.symm pending
    | cons bucket rest => exact pending.1.symm
  next {iter pickled bucket} follows entry := by
    obtain ⟨bounded, pending⟩ := follows
    cases iter with
    | nil => cases entry
    | cons bucket rest =>
      have fewer (entry : SampleCount) (member : entry ∈ rest.filter (·.count ≠ 0)) : entry.IsInt :=
        bounded entry (List.mem_cons_of_mem _ member)
      have rest_ : visited (bucketIteration.next (bucket :: rest)) = rest.filter (·.count ≠ 0) :=
        visited_skipEmptyBuckets rest
      constructor
      · rw [rest_]
        exact fewer
      · rw [rest_]
        exact pending_new fewer pending.2

/-- An entry takes at least a byte of the pickle, so these turns and one for each bucket are enough. -/
def turns (pickled : SampleCountPickleIterator) : Nat :=
  pickled.iter.end_index_ - pickled.iter.read_index_ + 1

theorem Follows.enough {iter : SampleCountIterator} {pickled : SampleCountPickleIterator}
    (follows : Follows iter pickled) : (visited iter).length ≤ pickled.turns := by
  have pending := follows.pending
  cases entries : visited iter with
  | nil => exact Nat.zero_le _
  | cons bucket rest =>
    rw [entries] at pending
    have left := pending.2.length
    rw [length_encodings] at left
    rw [List.length_cons, turns, left]
    omega

end SampleCountPickleIterator

@[simp] theorem SampleVector.length_addSubtractOver {I : Type} (iteration : SampleIteration I) (ranges : BucketRanges)
    (op : Operator) (turns index : Nat) (iter : I) (counts : List Count) :
    (addSubtractOver iteration ranges op turns index iter counts).1.1.length = counts.length := by
  induction turns generalizing index iter counts with
  | zero => rfl
  | succ turns ih =>
    rw [addSubtractOver]
    cases iteration.get iter with
    | none => rfl
    | some bucket =>
      simp only
      split_ifs with inside starts larger
      · exact (ih _ _ _).trans List.length_set
      · exact ih _ _ _
      · rfl
      · rfl

/-- `AddSubtractImpl` with a pickle iterator. -/
def SampleVector.addSubtractPickled (samples : SampleVector) (pickled : SampleCountPickleIterator) (op : Operator) :
    (SampleVector × Bool) × SampleCountPickleIterator :=
  let result := addSubtractOver SampleCountPickleIterator.iteration samples.bucketRanges op
    (samples.counts.length + pickled.turns) 0 pickled samples.counts
  (({ samples with
      counts := result.1.1
      sized := (length_addSubtractOver ..).trans samples.sized }, result.1.2), result.2)

def SampleMap.addSubtractPickled (samples : SampleMap) (pickled : SampleCountPickleIterator) (op : Operator) :
    (SampleMap × Bool) × SampleCountPickleIterator :=
  let result := addSubtractOver SampleCountPickleIterator.iteration op pickled.turns pickled samples.sampleCounts
  (({ samples with sampleCounts := result.1.1 }, result.1.2), result.2)

section Following

variable {iter : SampleCountIterator} {pickled : SampleCountPickleIterator}

theorem SampleVector.addSubtractPickled_eq (follows : SampleCountPickleIterator.Follows iter pickled)
    (samples : SampleVector) (op : Operator) :
    (samples.addSubtractPickled pickled op).1 = samples.addSubtractImpl iter op := by
  have given := length_visited_le iter
  have read := follows.enough
  obtain ⟨more, extra⟩ := Nat.exists_eq_add_of_le given
  obtain ⟨further, left⟩ := Nat.exists_eq_add_of_le read
  have loops : (addSubtractOver SampleCountPickleIterator.iteration samples.bucketRanges op
      (samples.counts.length + pickled.turns) 0 pickled samples.counts).1 =
        addSubtractFrom samples.bucketRanges op (samples.counts.length + iter.length) 0 iter samples.counts := by
    have enough : samples.counts.length - 0 + (visited iter).length ≤ samples.counts.length + (visited iter).length :=
      Nat.le_refl _
    rw [← addSubtractOver_simulates SampleCountPickleIterator.simulates _ _ _ _ follows, addSubtractOver_buckets,
      extra, left, ← Nat.add_assoc, ← Nat.add_assoc, addSubtractFrom_enough _ _ enough,
      addSubtractFrom_enough _ _ enough]
  simp only [addSubtractPickled, addSubtractImpl, loops]

theorem SampleMap.addSubtractPickled_eq (follows : SampleCountPickleIterator.Follows iter pickled)
    (samples : SampleMap) (op : Operator) :
    (samples.addSubtractPickled pickled op).1 = samples.addSubtractImpl iter op := by
  have given := length_visited_le iter
  have read := follows.enough
  obtain ⟨more, extra⟩ := Nat.exists_eq_add_of_le given
  obtain ⟨further, left⟩ := Nat.exists_eq_add_of_le read
  have loops : (addSubtractOver SampleCountPickleIterator.iteration op pickled.turns pickled samples.sampleCounts).1 =
      addSubtractFrom op iter.length iter samples.sampleCounts := by
    rw [← addSubtractOver_simulates SampleCountPickleIterator.simulates _ _ follows, addSubtractOver_buckets,
      extra, left, addSubtractFrom_enough _ (Nat.le_refl _), addSubtractFrom_enough _ (Nat.le_refl _)]
  simp only [addSubtractPickled, addSubtractImpl, loops]

end Following

namespace HistogramSamples

open PickleIterator in
/-- The reads that `AddFromPickle` starts with. -/
def readHeader : Reader (Int × Count) := do
  let sum ← readInt64
  let redundant_count ← readInt
  return (sum.toInt, redundant_count.toInt)

def addFromPickle (samples : HistogramSamples) (iter : PickleIterator) :
    (HistogramSamples × Bool) × PickleIterator :=
  match readHeader iter with
  | (none, iter) => ((samples, false), iter)
  | (some (sum, redundantCount), iter) =>
    let pickle_iter := SampleCountPickleIterator.new iter
    match samples with
    | vector samples =>
      let result := { samples with
        sum := samples.sum + sum
        redundantCount := samples.redundantCount + redundantCount }.addSubtractPickled pickle_iter .add
      ((vector result.1.1, result.1.2), result.2.iter)
    | map samples =>
      let result := { samples with
        sum := samples.sum + sum
        redundantCount := samples.redundantCount + redundantCount }.addSubtractPickled pickle_iter .add
      ((map result.1.1, result.1.2), result.2.iter)

section Writing

open Pickle

variable (garbage : Nat → Nat → Byte)

/-- The writes of an entry in `Serialize`. -/
def serializeBucket (bucket : SampleCount) : Writer Bool :=
  andThen (writeInt garbage (BitVec.ofInt 32 bucket.min))
    (andThen (writeInt garbage (BitVec.ofInt 32 bucket.max)) (writeInt garbage (BitVec.ofInt 32 bucket.count)))

/-- The loop of `Serialize`. -/
def serializeBuckets : SampleCountIterator → Writer Bool
  | [] => return true
  | bucket :: rest => andThen (serializeBucket garbage bucket) (serializeBuckets (skipEmptyBuckets rest))
termination_by iter => iter.length
decreasing_by exact Nat.lt_succ_of_le (length_skipEmptyBuckets_le rest)

def serialize (samples : HistogramSamples) : Writer Bool :=
  andThen (writeInt64 garbage (BitVec.ofInt 64 samples.sum))
    (andThen (writeInt garbage (BitVec.ofInt 32 samples.redundantCount)) (serializeBuckets garbage samples.iterator))

/-- The bytes that `Serialize` writes. -/
def encoding (samples : HistogramSamples) : List Byte :=
  encode 8 (BitVec.ofInt 64 samples.sum).toNat ++
    (encode 4 (BitVec.ofInt 32 samples.redundantCount).toNat ++ (visited samples.iterator).flatMap SampleCount.encoding)

theorem appends_serializeBuckets (iter : SampleCountIterator) :
    Appends (serializeBuckets garbage iter) ((visited iter).flatMap SampleCount.encoding) := by
  have bucketWrites (bucket : SampleCount) : Appends (serializeBucket garbage bucket) bucket.encoding :=
    (PickleValue.appends_word garbage 4 _ rfl).andThen
      ((PickleValue.appends_word garbage 4 _ rfl).andThen (PickleValue.appends_word garbage 4 _ rfl))
  fun_induction serializeBuckets garbage iter with
  | case1 =>
    intro pickle header_size payload holds
    exact ⟨pickle, rfl, (List.append_nil payload).symm ▸ holds⟩
  | case2 bucket rest ih =>
    rw [visited_skipEmptyBuckets] at ih
    exact (bucketWrites bucket).andThen ih

theorem appends_serialize (samples : HistogramSamples) : Appends (samples.serialize garbage) samples.encoding :=
  (PickleValue.appends_word garbage 8 _ rfl).andThen
    ((PickleValue.appends_word garbage 4 _ rfl).andThen (appends_serializeBuckets garbage samples.iterator))

end Writing

/-- The samples are within their types; the values in a map are below the largest `int`. -/
structure Serializable (samples : HistogramSamples) : Prop where
  sum : IsInt64 samples.sum
  redundantCount : IsInt32 samples.redundantCount
  entries : match samples with
    | vector samples =>
      (∀ value ∈ samples.bucketRanges.ranges, IsInt32 value) ∧ ∀ count ∈ samples.counts, IsInt32 count
    | map samples =>
      ∀ entry ∈ samples.sampleCounts.entries, IsInt32 entry.1 ∧ entry.1 < sampleTypeMax ∧ IsInt32 entry.2

/-- The values that separate the buckets of a vector; a map has none. -/
def boundaries (samples : HistogramSamples) : Option (List Sample) :=
  samples.layout.map BucketRanges.ranges

theorem range_isInt {ranges : BucketRanges} (typed : ∀ value ∈ ranges.ranges, IsInt32 value) (i : Nat) :
    IsInt32 (ranges.range i) := by
  by_cases inside : i < ranges.ranges.length
  · rw [BucketRanges.range, List.getD_eq_getElem _ _ inside]
    exact typed _ (List.getElem_mem inside)
  · rw [BucketRanges.range, List.getD_eq_default _ _ (Nat.le_of_not_lt inside)]
    decide

theorem isInt32_succ {value : Int} (typed : IsInt32 value) (below : value < 2147483647) : IsInt32 (value + 1) := by
  unfold IsInt32 at typed ⊢
  omega

theorem bucketsFrom_isInt {ranges : BucketRanges} (typed : ∀ value ∈ ranges.ranges, IsInt32 value) (index : Nat)
    {counts : List Count} (counted : ∀ count ∈ counts, IsInt32 count) :
    ∀ bucket ∈ SampleVector.bucketsFrom ranges index counts, bucket.IsInt := by
  induction counts generalizing index with
  | nil =>
    intro bucket member
    cases member
  | cons count counts ih =>
    intro bucket member
    cases List.mem_cons.mp member with
    | inl first =>
      rw [first]
      exact ⟨range_isInt typed index, range_isInt typed (index + 1), counted count List.mem_cons_self⟩
    | inr later => exact ih (index + 1) (fun count member => counted count (List.mem_cons_of_mem _ member)) bucket later

theorem Serializable.visited_isInt {samples : HistogramSamples} (serializable : samples.Serializable) :
    ∀ bucket ∈ visited samples.iterator, bucket.IsInt := by
  intro bucket member
  cases samples with
  | vector samples =>
    obtain ⟨typed, counted⟩ := serializable.entries
    have entry : bucket ∈ visited (skipEmptyBuckets (SampleVector.bucketsFrom samples.bucketRanges 0 samples.counts)) :=
      member
    rw [visited_skipEmptyBuckets] at entry
    exact bucketsFrom_isInt typed 0 counted bucket (List.mem_of_mem_filter entry)
  | map samples =>
    have values := serializable.entries
    have entry : bucket ∈ visited (skipEmptyBuckets (SampleMap.buckets samples.sampleCounts.entries)) := member
    rw [visited_skipEmptyBuckets] at entry
    obtain ⟨pair, held, rfl⟩ := List.mem_map.mp (List.mem_of_mem_filter entry)
    obtain ⟨key, below, count⟩ := values pair held
    exact ⟨key, isInt32_succ key below, count⟩

open PickleIterator in
theorem reads_header (sum : BitVec 64) (redundantCount : BitVec 32) :
    PickleIterator.Reads readHeader (encode 8 sum.toNat ++ encode 4 redundantCount.toNat)
      (sum.toInt, redundantCount.toInt) := by
  have last := (reads_int redundantCount).map fun redundant_count => (sum.toInt, redundant_count.toInt)
  have first : PickleIterator.Reads readInt64 (encode 8 sum.toNat) sum := reads_word 8 (by decide) rfl sum
  exact first.bind last

/-- Reading what `Serialize` wrote does what `Add` does, and returns whether its buckets matched. -/
theorem addFromPickle_ahead {samples : HistogramSamples} (serializable : samples.Serializable)
    (target : HistogramSamples) {iter : PickleIterator} (ahead : PickleIterator.Ahead iter samples.encoding) :
    (target.addFromPickle iter).1.1 = target.add samples ∧
      (target.addFromPickle iter).1.2 = match target with
        | vector target => ({ target with
            sum := target.sum + samples.sum
            redundantCount := target.redundantCount + samples.redundantCount }.addSubtractImpl samples.iterator .add).2
        | map target => ({ target with
            sum := target.sum + samples.sum
            redundantCount := target.redundantCount + samples.redundantCount }.addSubtractImpl
              samples.iterator .add).2 := by
  have sumKept : (BitVec.ofInt 64 samples.sum).toInt = samples.sum :=
    BitVec.toInt_ofInt_eq_self (by decide) serializable.sum.1 serializable.sum.2
  have redundantKept := SampleCountPickleIterator.toInt_ofInt serializable.redundantCount
  have reads := reads_header (BitVec.ofInt 64 samples.sum) (BitVec.ofInt 32 samples.redundantCount)
  rw [sumKept, redundantKept] at reads
  rw [encoding, ← List.append_assoc] at ahead
  obtain ⟨later, read, left⟩ := reads iter _ ahead
  have follows : SampleCountPickleIterator.Follows samples.iterator (SampleCountPickleIterator.new later) :=
    ⟨serializable.visited_isInt, SampleCountPickleIterator.pending_new serializable.visited_isInt left⟩
  rw [addFromPickle, read]
  cases target with
  | vector target =>
    constructor
    · exact congrArg (fun result => vector result.1) (SampleVector.addSubtractPickled_eq follows _ .add)
    · exact congrArg (fun result => result.2) (SampleVector.addSubtractPickled_eq follows _ .add)
  | map target =>
    constructor
    · exact congrArg (fun result => map result.1) (SampleMap.addSubtractPickled_eq follows _ .add)
    · exact congrArg (fun result => result.2) (SampleMap.addSubtractPickled_eq follows _ .add)

theorem addSubtractImpl_matches {samples target : SampleVector}
    (same : samples.bucketRanges.ranges = target.bucketRanges.ranges) (increase : target.bucketRanges.StartsIncrease)
    (op : Operator) : (target.addSubtractImpl samples.iterator op).2 = true := by
  have sized : samples.counts.length = target.bucketRanges.bucketCount := by
    rw [samples.sized, BucketRanges.bucketCount, BucketRanges.size, same]
    rfl
  have range : samples.bucketRanges.range = target.bucketRanges.range := by
    funext i
    rw [BucketRanges.range, same, BucketRanges.range]
  have buckets (index : Nat) (counts : List Count) :
      SampleVector.bucketsFrom samples.bucketRanges index counts =
        SampleVector.bucketsFrom target.bucketRanges index counts := by
    induction counts generalizing index with
    | nil => rfl
    | cons count counts ih => rw [SampleVector.bucketsFrom, SampleVector.bucketsFrom, ih, range]
  let aligned : SampleVector := { samples with bucketRanges := target.bucketRanges, sized }
  have iterator : samples.iterator = aligned.iterator := congrArg skipEmptyBuckets (buckets 0 samples.counts)
  have ranges : aligned.bucketRanges = target.bucketRanges := rfl
  rw [iterator]
  exact (SampleVector.addSubtractImpl_iterator ranges increase).2

/-- Samples that are written after any items of a pickle, and read after them, are added to a target with the same
boundaries as by `Add`. -/
theorem addFromPickle_serialize (garbage : Nat → Nat → Byte) {header_size : Nat} (least : sizeofHeader ≤ header_size)
    {items : List PickleValue} (short : ∀ item ∈ items, item.contents.length < 2 ^ 31)
    {samples target : HistogramSamples} (serializable : samples.Serializable)
    (same : samples.boundaries = target.boundaries) (orderly : Orderly target.layout)
    (fits : (items.flatMap PickleValue.encoding ++ samples.encoding).length < 2 ^ 32) :
    ∃ fresh written iter later, Pickle.new garbage header_size = some fresh ∧
      Pickle.andThen (PickleValue.writeAll garbage items) (samples.serialize garbage) fresh = some (true, written) ∧
      PickleType.readAll (items.map PickleValue.type) (PickleIterator.new written) = (some items, iter) ∧
      target.addFromPickle iter = ((target.add samples, true), later) := by
  obtain ⟨fresh, made, empty⟩ := Pickle.new_holds garbage least
  obtain ⟨written, wrote, holds⟩ :=
    (PickleValue.appends_writeAll garbage short).andThen (appends_serialize garbage samples) fresh _ _ empty
  rw [List.nil_append] at holds
  obtain ⟨iter, read, left⟩ := PickleType.reads_all short (PickleIterator.new written) _ (holds.ahead_new fits)
  obtain ⟨added, matched⟩ := addFromPickle_ahead serializable target left
  refine ⟨fresh, written, iter, (target.addFromPickle iter).2, made, wrote, read, ?_⟩
  have success : (target.addFromPickle iter).1.2 = true := by
    rw [matched]
    cases target with
    | vector target =>
      cases samples with
      | map samples => cases same
      | vector samples => exact addSubtractImpl_matches (Option.some.inj same) (orderly _ rfl) .add
    | map target =>
      cases samples with
      | vector samples => cases same
      | map samples => exact (SampleMap.addSubtractImpl_iterator .add _ samples).2.2
  rw [← added, ← success]

/-- Two buckets of three are filled, behind a string. -/
theorem addFromPickle_serialize_twoBuckets :
    ∃ samples target : HistogramSamples, samples.totalCount = 5 ∧ target.totalCount = 7 ∧
      ∃ fresh written iter later, Pickle.new (fun _ _ => 0xff) 4 = some fresh ∧
        Pickle.andThen (PickleValue.writeAll (fun _ _ => 0xff) [.string [104, 105]])
          (samples.serialize fun _ _ => 0xff) fresh = some (true, written) ∧
        PickleType.readAll [.string] (PickleIterator.new written) = (some [.string [104, 105]], iter) ∧
        target.addFromPickle iter = ((target.add samples, true), later) := by
  let ranges : BucketRanges := ⟨[0, 1, 10, 2147483647], 0⟩
  let samples : SampleVector := ⟨1, -23, 5, ranges, [2, 0, 3], rfl⟩
  let target : SampleVector := ⟨2, 40, 7, ranges, [0, 4, 3], rfl⟩
  have increase : ranges.StartsIncrease := startsIncrease_of_pairwise (by decide)
  have serializable : (vector samples).Serializable := ⟨by decide, by decide, by decide⟩
  have orderly : Orderly (vector target).layout := by
    intro layout same
    obtain rfl := Option.some.inj same
    exact increase
  have fits : ([PickleValue.string [104, 105]].flatMap PickleValue.encoding ++
      (vector samples).encoding).length < 2 ^ 32 := by decide
  exact ⟨vector samples, vector target, rfl, rfl,
    addFromPickle_serialize (fun _ _ => 0xff) (by decide) (by decide) serializable rfl orderly fits⟩

end HistogramSamples

end Libchrome.Base.Metrics
