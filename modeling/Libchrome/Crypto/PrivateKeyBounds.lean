import Libchrome.Crypto.PrivateKeyImport
import Libchrome.Crypto.PrivateKeyMinimal
import Libchrome.Library.Checked

/-!
# Where the import of a key leaves its input

A position is what remains of the input. A reader leaves the input by a length that it takes for a
negative number, or asks for fewer zeros than none for an integer that is too long.
-/

namespace Libchrome.Crypto.PrivateKeyInfoCodec
open Library Bytes

/-- A length, and what is behind it. -/
inductive IsLength : Nat → List Byte → List Byte → Prop
  | short {first : Byte} (rest : List Byte) : first.toNat < 0x80 → IsLength first.toNat (first :: rest) rest
  | long {first : Byte} {octets rest : List Byte} : first.toNat = 0x80 + octets.length → octets.length ≤ 4 →
    rest ≠ [] → IsLength (Der.number octets) (first :: (octets ++ rest)) rest

/-- A tag and a length, which ends inside the input or is negative as a signed number of 32 bits. -/
def Header (tag : Byte) (length : Nat) (pos rest : List Byte) : Prop :=
  ∃ behind, pos = tag :: behind ∧ IsLength length behind rest ∧ (length ≤ rest.length ∨ 2 ^ 31 ≤ length)

/-- An integer that ends inside the input. -/
def IntegerAt (content pos rest : List Byte) : Prop :=
  content ≠ [] ∧ Header kIntegerTag content.length pos (content ++ rest)

/-- An integer that does not end inside the input. -/
def IntegerOverruns (pos : List Byte) : Prop :=
  ∃ length rest, Header kIntegerTag length pos rest ∧ rest.length < length

/-- The zeros to fill in, as an `int`. -/
def padOf (expected : BitVec 64) (length : Nat) : BitVec 32 := (expected - BitVec.ofNat 64 length).setWidth 32

/-- An integer of so many bytes is added to `out`. -/
def Accepts (expected : BitVec 64) (out : List Byte) (length : Nat) : Prop :=
  if out.length = (expected + 1).toNat then
    out ≠ [] ∧ out.headD 0 = 0 ∧ 0 ≤ (padOf expected length + 1).toInt
  else out.length ≤ expected.toNat ∧ 0 ≤ (padOf expected length).toInt

/-- An integer of so many bytes is too long, or the first byte of `out` is asked for where there is none. -/
def Overflows (expected : BitVec 64) (out : List Byte) (length : Nat) : Prop :=
  if out.length = (expected + 1).toNat then
    out = [] ∨ out.headD 0 = 0 ∧ (padOf expected length + 1).toInt < 0
  else out.length ≤ expected.toNat ∧ (padOf expected length).toInt < 0

/-- What the importer expects next. -/
inductive Part where
  | header (tag : Byte)
  | version
  | algorithm
  | component (expected : BitVec 64) (out : List Byte)

/-- The part stands at a position, with something behind it. -/
def Part.Precedes : Part → List Byte → List Byte → Prop
  | .header tag, pos, rest => ∃ length, Header tag length pos rest
  | .version, pos, rest => ∃ length, Header kIntegerTag length pos (List.replicate length 0 ++ rest)
  | .algorithm, pos, rest => pos = kRsaAlgorithmIdentifier ++ rest ∧ rest ≠ []
  | .component expected out, pos, rest =>
    ∃ content, IntegerAt content pos rest ∧ Accepts expected out (unsigned content).length

/-- The part leads out of the input. -/
def Part.Overruns : Part → List Byte → Prop
  | .header _, _ => False
  | .version, pos =>
    ∃ length rest, Header kIntegerTag length pos rest ∧ rest.length < length ∧ ∀ byte ∈ rest, byte = 0
  | .algorithm, _ => False
  | .component expected out, pos =>
    IntegerOverruns pos ∨ ∃ content rest, IntegerAt content pos rest ∧ Overflows expected out (unsigned content).length

/-- One of the parts is reached and leads out of the input, or all are passed and `last` holds there. -/
def Overrun (last : List Byte → Prop) : List Part → List Byte → Prop
  | [], pos => last pos
  | part :: parts, pos => part.Overruns pos ∨ ∃ rest, part.Precedes pos rest ∧ Overrun last parts rest

def heading : List Part :=
  [.header kSequenceTag, .version, .algorithm, .header kOctetStringTag, .header kSequenceTag, .version]

/-- The integers behind a modulus of a size. -/
def components (codec : PrivateKeyInfoCodec) (modSize : BitVec 32) : List Part :=
  let primesSize := (modSize.sdiv 2).signExtend 64
  [.component 4 codec.publicExponent, .component (modSize.signExtend 64) codec.privateExponent,
    .component primesSize codec.prime1, .component primesSize codec.prime2, .component primesSize codec.exponent1,
    .component primesSize codec.exponent2, .component primesSize codec.coefficient]

/-- The modulus, or one of the integers behind it, leads out of the input. -/
def KeyOverruns (codec : PrivateKeyInfoCodec) (pos : List Byte) : Prop :=
  IntegerOverruns pos ∨ ∃ content rest, IntegerAt content pos rest ∧
    (BitVec.ofNat 32 (codec.modulus.length + (unsigned content).length)).toInt % 2 = 0 ∧
    Overrun (fun _ => False)
      (codec.components (BitVec.ofNat 32 (codec.modulus.length + (unsigned content).length))) rest

def Overruns (codec : PrivateKeyInfoCodec) (input : List Byte) : Prop := Overrun codec.KeyOverruns heading input

section Lengths

variable {tag : Byte} {length : BitVec 32} {pos rest : List Byte}

theorem toInt_le_iff (bound : Nat) : length.toInt ≤ bound ↔ length.toNat ≤ bound ∨ 2 ^ 31 ≤ length.toNat := by
  rw [BitVec.toInt_eq_toNat_cond]
  have below := length.isLt
  split <;> omega

theorem bounded_eq_ok_iff {other : BitVec 32} {behind : List Byte} :
    bounded other behind = .ok (length, rest) ↔
      length = other ∧ rest = behind ∧ (length.toNat ≤ rest.length ∨ 2 ^ 31 ≤ length.toNat) := by
  unfold bounded
  split
  next inside =>
    rw [toInt_le_iff] at inside
    rw [Except.ok.injEq, Prod.mk.injEq]
    constructor
    · rintro ⟨rfl, rfl⟩
      exact ⟨rfl, rfl, inside⟩
    · rintro ⟨rfl, rfl, -⟩
      exact ⟨rfl, rfl⟩
  next outside =>
    rw [toInt_le_iff] at outside
    constructor
    · intro same
      cases same
    · rintro ⟨rfl, rfl, inside⟩
      exact absurd inside outside

theorem toNat_and_mask : ∀ first : Byte, (first &&& 0x7f).toNat = first.toNat % 0x80 := by decide

theorem toNat_foldl_octets {octets : List Byte} (few : octets.length ≤ 4) :
    (octets.foldl (fun (length : BitVec 32) byte => (length <<< 8) ||| byte.setWidth 32) 0).toNat =
      Der.number octets := by
  induction octets using List.reverseRecOn with
  | nil => rfl
  | append_singleton front last ih =>
    rw [List.length_append, List.length_singleton] at few
    have front_few : front.length ≤ 3 := by omega
    have small : Der.number front < 256 ^ 3 :=
      Nat.lt_of_lt_of_le (Der.number_lt front) (Nat.pow_le_pow_right (by decide) front_few)
    have byte := last.isLt
    rw [List.foldl_append, List.foldl_cons, List.foldl_nil, BitVec.toNat_or, BitVec.toNat_shiftLeft,
      ih (by omega), BitVec.toNat_setWidth, Der.number_concat, Nat.shiftLeft_eq,
      Nat.mod_eq_of_lt (show Der.number front * 2 ^ 8 < 2 ^ 32 by omega),
      Nat.mod_eq_of_lt (show last.toNat < 2 ^ 32 by omega), Nat.mul_comm, ← Nat.two_pow_add_eq_or_of_lt byte]

theorem readLength_eq_ok_iff : readLength pos = .ok (length, rest) ↔
    IsLength length.toNat pos rest ∧ (length.toNat ≤ rest.length ∨ 2 ^ 31 ≤ length.toNat) := by
  constructor
  · intro read
    cases pos with
    | nil => cases read
    | cons first behind =>
      rw [readLength] at read
      split at read
      next short =>
        obtain ⟨rfl, rfl, inside⟩ := bounded_eq_ok_iff.mp read
        have widened : (first.setWidth 32).toNat = first.toNat := by
          rw [BitVec.toNat_setWidth]
          omega
        have small : first.toNat < 0x80 := by
          by_contra large
          exact (and_ne_zero_iff first).mpr (by omega) short
        rw [widened] at inside ⊢
        exact ⟨.short rest small, inside⟩
      next long =>
        have large := (and_ne_zero_iff first).mp long
        dsimp only at read
        split at read
        next fits =>
          obtain ⟨rfl, rfl, inside⟩ := bounded_eq_ok_iff.mp read
          have count := toNat_and_mask first
          have below := first.isLt
          have taken : (behind.take (first &&& 0x7f).toNat).length = (first &&& 0x7f).toNat := by
            rw [List.length_take]
            omega
          have number := toNat_foldl_octets (taken.trans_le fits.1)
          have more : behind.drop (first &&& 0x7f).toNat ≠ [] := by
            rw [← List.length_pos_iff, List.length_drop]
            omega
          have is := IsLength.long (show first.toNat = 0x80 + _ by rw [taken]; omega) (taken.trans_le fits.1) more
          rw [List.take_append_drop, ← number] at is
          exact ⟨is, inside⟩
        next => cases read
  · rintro ⟨is, inside⟩
    generalize same : length.toNat = number at is inside
    cases is with
    | @short first _ small =>
      have short : first &&& 0x80 = 0 := by
        by_contra long
        have large := (and_ne_zero_iff first).mp long
        omega
      have widened : length = first.setWidth 32 := by
        apply BitVec.eq_of_toNat_eq
        rw [same, BitVec.toNat_setWidth]
        omega
      rw [readLength, if_pos short]
      exact bounded_eq_ok_iff.mpr ⟨widened, rfl, same.symm ▸ inside⟩
    | @long first octets _ count few more =>
      have long : ¬first &&& 0x80 = 0 := (and_ne_zero_iff first).mpr (by omega)
      have masked : (first &&& 0x7f).toNat = octets.length := by
        rw [toNat_and_mask]
        omega
      have positive := List.length_pos_iff.mpr more
      have shifted : length = octets.foldl (fun (length : BitVec 32) byte => (length <<< 8) ||| byte.setWidth 32) 0 :=
        BitVec.eq_of_toNat_eq (same.trans (toNat_foldl_octets few).symm)
      rw [readLength, if_neg long]
      simp only [masked, List.take_left, List.drop_left]
      rw [if_pos ⟨few, by rw [List.length_append]; omega⟩]
      exact bounded_eq_ok_iff.mpr ⟨shifted, rfl, same.symm ▸ inside⟩

theorem readLength_ne_fault : readLength pos ≠ .error .fault := by
  cases pos with
  | nil => exact fun same => by cases same
  | cons first behind =>
    simp only [readLength, bounded]
    split_ifs <;> exact fun same => by cases same

theorem readTypeHeaderAndLength_eq_ok_iff :
    readTypeHeaderAndLength tag pos = .ok (length, rest) ↔ Header tag length.toNat pos rest := by
  cases pos with
  | nil =>
    constructor
    · intro same
      cases same
    · rintro ⟨_, same, -⟩
      cases same
  | cons first behind =>
    rw [readTypeHeaderAndLength]
    split
    next same =>
      rw [readLength_eq_ok_iff, same]
      constructor
      · intro both
        exact ⟨behind, rfl, both⟩
      · rintro ⟨_, ⟨⟩, both⟩
        exact both
    next differs =>
      constructor
      · intro same
        cases same
      · rintro ⟨_, ⟨⟩, -⟩
        exact absurd rfl differs

theorem readTypeHeaderAndLength_ne_fault : readTypeHeaderAndLength tag pos ≠ .error .fault := by
  cases pos with
  | nil => exact fun same => by cases same
  | cons first behind =>
    rw [readTypeHeaderAndLength]
    split
    next => exact readLength_ne_fault
    next => exact fun same => by cases same

theorem Header.lt {number : Nat} (header : Header tag number pos rest) : number < 2 ^ 32 := by
  obtain ⟨_, -, is, -⟩ := header
  cases is with
  | @short first _ small => omega
  | @long _ octets _ count few more =>
    exact Nat.lt_of_lt_of_le (Der.number_lt octets) (Nat.pow_le_pow_right (by decide) few)

theorem exists_header_iff (holds : Nat → Prop) :
    (∃ number, Header tag number pos rest ∧ holds number) ↔
      ∃ length : BitVec 32, readTypeHeaderAndLength tag pos = .ok (length, rest) ∧ holds length.toNat := by
  constructor
  · rintro ⟨number, header, held⟩
    have exact' : (BitVec.ofNat 32 number).toNat = number := by
      rw [BitVec.toNat_ofNat]
      exact Nat.mod_eq_of_lt header.lt
    exact ⟨BitVec.ofNat 32 number, readTypeHeaderAndLength_eq_ok_iff.mpr (exact'.symm ▸ header), exact'.symm ▸ held⟩
  · rintro ⟨length, read, held⟩
    exact ⟨length.toNat, readTypeHeaderAndLength_eq_ok_iff.mp read, held⟩

end Lengths

section Readers

variable {α β : Type} {result : Except Failure (α × List Byte)} {part : Part} {parts : List Part}
  {last : List Byte → Prop} {pos rest : List Byte}

/-- A reader leaves the input exactly where its part does, and goes on exactly behind its part. -/
structure Reads (result : Except Failure (α × List Byte)) (part : Part) (pos : List Byte) : Prop where
  fault : result = .error .fault ↔ part.Overruns pos
  taken (rest : List Byte) : (∃ value, result = .ok (value, rest)) ↔ part.Precedes pos rest

theorem Reads.fault_iff (reads : Reads result part pos) {next : α × List Byte → Except Failure β}
    (later : ∀ value rest, next (value, rest) = .error .fault ↔ Overrun last parts rest) :
    (result >>= next) = .error .fault ↔ Overrun last (part :: parts) pos := by
  simp only [Checked.bind_eq_error_iff, Prod.exists, reads.fault, later, Overrun, ← reads.taken]
  constructor
  · rintro (exceeds | ⟨value, rest, read, after⟩)
    · exact Or.inl exceeds
    · exact Or.inr ⟨rest, ⟨value, read⟩, after⟩
  · rintro (exceeds | ⟨rest, ⟨value, read⟩, after⟩)
    · exact Or.inl exceeds
    · exact Or.inr ⟨value, rest, read, after⟩

theorem reads_header (tag : Byte) : Reads (readTypeHeaderAndLength tag pos) (.header tag) pos where
  fault := ⟨fun same => readTypeHeaderAndLength_ne_fault same, fun none => none.elim⟩
  taken rest := by
    have headers : (∃ number, Header tag number pos rest ∧ True) ↔ _ := exists_header_iff fun _ => True
    simp only [and_true] at headers
    exact headers.symm

theorem readZeros_eq_fault_iff {count : Nat} :
    readZeros count pos = .error .fault ↔ pos.length < count ∧ ∀ byte ∈ pos, byte = 0 := by
  induction count generalizing pos with
  | zero => exact ⟨fun same => (by cases same), fun none => absurd none.1 (Nat.not_lt_zero _)⟩
  | succ count ih =>
    cases pos with
    | nil => exact ⟨fun _ => ⟨Nat.succ_pos _, fun _ member => absurd member List.not_mem_nil⟩, fun _ => rfl⟩
    | cons byte rest =>
      rw [readZeros, List.forall_mem_cons, List.length_cons, Nat.add_lt_add_iff_right]
      split
      next zero => rw [ih, and_iff_right zero]
      next other => exact ⟨fun same => (by cases same), fun both => absurd both.2.1 other⟩

theorem readZeros_eq_ok_iff {count : Nat} :
    readZeros count pos = .ok ((), rest) ↔ pos = List.replicate count 0 ++ rest := by
  induction count generalizing pos with
  | zero =>
    rw [readZeros, Except.ok.injEq, Prod.mk.injEq, eq_self, true_and, List.replicate_zero, List.nil_append]
  | succ count ih =>
    rw [List.replicate_succ, List.cons_append]
    cases pos with
    | nil => exact ⟨fun same => (by cases same), fun same => (by cases same)⟩
    | cons byte behind =>
      rw [readZeros, List.cons.injEq]
      split
      next zero => rw [ih, and_iff_right zero]
      next other => exact ⟨fun same => (by cases same), fun both => absurd both.1 other⟩

theorem reads_version : Reads (readVersion pos) .version pos where
  fault := by
    simp only [readVersion, Checked.bind_eq_error_iff, Prod.exists, readTypeHeaderAndLength_ne_fault, false_or,
      readZeros_eq_fault_iff]
    constructor
    · rintro ⟨length, rest, read, exceeds⟩
      exact ⟨length.toNat, rest, readTypeHeaderAndLength_eq_ok_iff.mp read, exceeds⟩
    · rintro ⟨number, rest, header, exceeds⟩
      obtain ⟨length, read, exceeds⟩ :=
        (exists_header_iff fun number => rest.length < number ∧ ∀ byte ∈ rest, byte = 0).mp ⟨number, header, exceeds⟩
      exact ⟨length, rest, read, exceeds⟩
  taken rest := by
    constructor
    · rintro ⟨_, read⟩
      obtain ⟨⟨length, behind⟩, header, zeros⟩ := Checked.exists_of_bind_eq_ok read
      rw [readZeros_eq_ok_iff.mp zeros] at header
      exact ⟨length.toNat, readTypeHeaderAndLength_eq_ok_iff.mp header⟩
    · rintro ⟨number, header⟩
      obtain ⟨length, read, same⟩ := (exists_header_iff fun other => other = number).mp ⟨number, header, rfl⟩
      refine ⟨(), ?_⟩
      rw [readVersion, read, ok_bind]
      exact readZeros_eq_ok_iff.mpr (same ▸ rfl)

theorem reads_algorithm : Reads (readAlgorithmIdentifier pos) .algorithm pos where
  fault := by
    simp only [readAlgorithmIdentifier, Part.Overruns, iff_false]
    split <;> exact fun same => by cases same
  taken rest := by
    constructor
    · rintro ⟨_, read⟩
      rw [readAlgorithmIdentifier] at read
      split at read
      next both =>
        cases read
        refine ⟨?_, ?_⟩
        · conv_lhs => rw [← List.take_append_drop kRsaAlgorithmIdentifier.length pos, both.2]
        · rw [← List.length_pos_iff, List.length_drop]
          omega
      next => cases read
    · rintro ⟨rfl, more⟩
      exact ⟨(), readAlgorithmIdentifier_append more⟩

theorem readIntegerImpl_eq (pos out : List Byte) (bigEndian : Bool) :
    readIntegerImpl pos out bigEndian = (do
      let read ← readTypeHeaderAndLength kIntegerTag pos
      if read.1 = 0 then .error .rejected
      else if read.1.toNat ≤ read.2.length then
        .ok (oriented bigEndian (out ++ unsigned (read.2.take read.1.toNat)), read.2.drop read.1.toNat)
      else .error .fault) := by
  rw [readIntegerImpl]
  congr 1
  funext read
  obtain ⟨length, behind⟩ := read
  dsimp only
  split
  next => rfl
  next some_ =>
    have positive : length.toNat ≠ 0 := fun zero => some_ (BitVec.eq_of_toNat_eq zero)
    cases behind with
    | nil => rw [if_neg (by rw [List.length_nil]; omega)]
    | cons first rest =>
      obtain ⟨less, same⟩ := Nat.exists_eq_succ_of_ne_zero positive
      have minus : (length - 1).toNat = less := by
        rw [BitVec.toNat_sub, same]
        have below := length.isLt
        have one : (1 : BitVec 32).toNat = 1 := rfl
        omega
      by_cases zero : first = 0
      · simp only [if_pos zero, readBytes, minus, same, Nat.succ_eq_add_one, List.length_cons, Nat.add_le_add_iff_right,
          List.take_succ_cons, List.drop_succ_cons, unsigned, List.headD_cons, List.tail_cons]
        rfl
      · simp only [if_neg zero, readBytes, same, Nat.succ_eq_add_one, List.take_succ_cons, unsigned, List.headD_cons]
        rfl

theorem readIntegerImpl_eq_fault_iff {out : List Byte} {bigEndian : Bool} :
    readIntegerImpl pos out bigEndian = .error .fault ↔ IntegerOverruns pos := by
  rw [readIntegerImpl_eq]
  simp only [Checked.bind_eq_error_iff, Prod.exists, readTypeHeaderAndLength_ne_fault, false_or]
  constructor
  · rintro ⟨length, behind, read, exceeds⟩
    split at exceeds
    next => cases exceeds
    next =>
      split at exceeds
      next => cases exceeds
      next outside =>
        exact ⟨length.toNat, behind, readTypeHeaderAndLength_eq_ok_iff.mp read, Nat.lt_of_not_le outside⟩
  · rintro ⟨number, behind, header, exceeds⟩
    obtain ⟨length, read, outside⟩ :=
      (exists_header_iff fun number => behind.length < number).mp ⟨number, header, exceeds⟩
    refine ⟨length, behind, read, ?_⟩
    have some_ : length ≠ 0 := by
      rintro rfl
      exact absurd outside (Nat.not_lt_zero _)
    rw [if_neg some_, if_neg (Nat.not_le_of_lt outside)]

theorem readIntegerImpl_eq_ok_iff {out value : List Byte} {bigEndian : Bool} :
    readIntegerImpl pos out bigEndian = .ok (value, rest) ↔
      ∃ content, IntegerAt content pos rest ∧ value = oriented bigEndian (out ++ unsigned content) := by
  rw [readIntegerImpl_eq]
  constructor
  · intro returned
    obtain ⟨⟨length, behind⟩, read, later⟩ := Checked.exists_of_bind_eq_ok returned
    split at later
    next => cases later
    next some_ =>
      split at later
      next inside =>
        cases later
        have size : (behind.take length.toNat).length = length.toNat := by
          rw [List.length_take]
          exact Nat.min_eq_left inside
        refine ⟨behind.take length.toNat, ⟨?_, ?_⟩, rfl⟩
        · intro nothing
          rw [nothing, List.length_nil] at size
          exact some_ (BitVec.eq_of_toNat_eq size.symm)
        · rw [List.take_append_drop, size]
          exact readTypeHeaderAndLength_eq_ok_iff.mp read
      next => cases later
  · rintro ⟨content, ⟨more, header⟩, rfl⟩
    obtain ⟨length, read, same⟩ := (exists_header_iff fun number => number = content.length).mp ⟨_, header, rfl⟩
    have some_ : length ≠ 0 := by
      rintro rfl
      exact more (List.eq_nil_of_length_eq_zero same.symm)
    rw [read, ok_bind]
    simp only [if_neg some_, same, List.length_append, Nat.le_add_right, if_true, List.take_left, List.drop_left]

theorem padded_eq (codec : PrivateKeyInfoCodec) (out temp : List Byte) (pad : BitVec 32) (pos : List Byte) :
    (codec.padded out temp pad pos = .error .fault ↔ pad.toInt < 0) ∧
      ∀ rest, (∃ value, codec.padded out temp pad pos = .ok (value, rest)) ↔ 0 ≤ pad.toInt ∧ pos = rest := by
  unfold padded
  split
  next positive =>
    refine ⟨⟨fun same => (by cases same), fun negative => absurd positive (Int.not_le.mpr negative)⟩, ?_⟩
    intro rest
    constructor
    · rintro ⟨_, same⟩
      cases same
      exact ⟨positive, rfl⟩
    · rintro ⟨-, rfl⟩
      exact ⟨_, rfl⟩
  next negative =>
    refine ⟨⟨fun _ => Int.not_le.mp negative, fun _ => rfl⟩, ?_⟩
    intro rest
    exact ⟨fun ⟨_, same⟩ => (by cases same), fun both => absurd both.1 negative⟩

/-- What becomes of an integer that was read, by the sizes. -/
theorem sized_eq (codec : PrivateKeyInfoCodec) (expected : BitVec 64) (out temp : List Byte) (pos : List Byte)
    {sized : Except Failure (List Byte × List Byte)}
    (same : sized =
      let pad := padOf expected temp.length
      if out.length = (expected + 1).toNat then
        match out with
        | [] => .error .fault
        | first :: _ => if first = 0 then codec.padded out temp (pad + 1) pos else .error .rejected
      else if out.length ≤ expected.toNat then codec.padded out temp pad pos
      else .error .rejected) :
    (sized = .error .fault ↔ Overflows expected out temp.length) ∧
      ∀ rest, (∃ value, sized = .ok (value, rest)) ↔ Accepts expected out temp.length ∧ pos = rest := by
  subst same
  unfold Overflows Accepts
  dsimp only
  split
  next more =>
    cases out with
    | nil =>
      refine ⟨⟨fun _ => .inl rfl, fun _ => rfl⟩, ?_⟩
      intro rest
      exact ⟨fun ⟨_, same⟩ => (by cases same), fun both => absurd rfl both.1.1⟩
    | cons first tail =>
      simp only [List.headD_cons, reduceCtorEq, false_or, ne_eq, not_false_eq_true, true_and]
      split
      next zero =>
        subst zero
        simp only [true_and]
        exact codec.padded_eq (0 :: tail) temp (padOf expected temp.length + 1) pos
      next other =>
        refine ⟨⟨fun same => (by cases same), fun both => absurd both.1 other⟩, ?_⟩
        intro rest
        exact ⟨fun ⟨_, same⟩ => (by cases same), fun both => absurd both.1.1 other⟩
  next =>
    split
    next short =>
      simp only [short, true_and]
      exact codec.padded_eq out temp (padOf expected temp.length) pos
    next long =>
      refine ⟨⟨fun same => (by cases same), fun both => absurd both.1 long⟩, ?_⟩
      intro rest
      exact ⟨fun ⟨_, same⟩ => (by cases same), fun both => absurd both.1.1 long⟩

theorem reads_component (codec : PrivateKeyInfoCodec) (expected : BitVec 64) (out : List Byte) :
    Reads (codec.readIntegerWithExpectedSize pos expected out) (.component expected out) pos where
  fault := by
    simp only [readIntegerWithExpectedSize, Checked.bind_eq_error_iff, Prod.exists, readIntegerImpl_eq_fault_iff,
      readIntegerImpl_eq_ok_iff, Part.Overruns]
    apply or_congr Iff.rfl
    constructor
    · rintro ⟨_, rest, ⟨content, integer, rfl⟩, exceeds⟩
      exact ⟨content, rest, integer, (sized_eq codec expected out _ rest rfl).1.mp exceeds⟩
    · rintro ⟨content, rest, integer, exceeds⟩
      exact ⟨_, rest, ⟨content, integer, rfl⟩, (sized_eq codec expected out _ rest rfl).1.mpr exceeds⟩
  taken rest := by
    simp only [Part.Precedes]
    constructor
    · rintro ⟨value, returned⟩
      obtain ⟨⟨temp, behind⟩, read, later⟩ := Checked.exists_of_bind_eq_ok returned
      obtain ⟨content, integer, rfl⟩ := readIntegerImpl_eq_ok_iff.mp read
      obtain ⟨accepted, rfl⟩ := ((sized_eq codec expected out _ behind rfl).2 rest).mp ⟨value, later⟩
      exact ⟨content, integer, accepted⟩
    · rintro ⟨content, integer, accepted⟩
      have read : readIntegerImpl pos [] true = .ok (unsigned content, rest) :=
        readIntegerImpl_eq_ok_iff.mpr ⟨content, integer, rfl⟩
      obtain ⟨value, later⟩ := ((sized_eq codec expected out (unsigned content) rest rfl).2 rest).mpr ⟨accepted, rfl⟩
      refine ⟨value, ?_⟩
      rw [readIntegerWithExpectedSize, read, ok_bind]
      exact later

end Readers

section Import

variable {codec : PrivateKeyInfoCodec} {input : List Byte}

theorem modulus_fault_iff {β : Type} {pos : List Byte} {next : List Byte × List Byte → Except Failure β}
    (later : ∀ modulus rest, next (modulus, rest) = .error .fault ↔
      (BitVec.ofNat 32 modulus.length).toInt % 2 = 0 ∧
        Overrun (fun _ => False) (codec.components (BitVec.ofNat 32 modulus.length)) rest) :
    (readIntegerImpl pos codec.modulus codec.bigEndian >>= next) = .error .fault ↔ codec.KeyOverruns pos := by
  have size (content : List Byte) : (oriented codec.bigEndian (codec.modulus ++ unsigned content)).length =
      codec.modulus.length + (unsigned content).length := by
    rw [length_oriented, List.length_append]
  simp only [Checked.bind_eq_error_iff, Prod.exists, readIntegerImpl_eq_fault_iff, readIntegerImpl_eq_ok_iff, later,
    KeyOverruns]
  apply or_congr Iff.rfl
  constructor
  · rintro ⟨_, rest, ⟨content, integer, rfl⟩, exceeds⟩
    rw [size] at exceeds
    exact ⟨content, rest, integer, exceeds⟩
  · rintro ⟨content, rest, integer, exceeds⟩
    rw [← size] at exceeds
    exact ⟨_, rest, ⟨content, integer, rfl⟩, exceeds⟩

/-- The importer leaves the input, or inserts fewer bytes than none, exactly where a part that it reaches
leads it there. -/
theorem importKey_eq_fault_iff : codec.importKey input = .error .fault ↔ codec.Overruns input := by
  by_cases none_ : input = []
  · subst none_
    refine ⟨fun same => (by cases same), ?_⟩
    rintro (exceeds | ⟨_, ⟨_, _, ⟨⟩, _⟩, _⟩)
    exact exceeds.elim
  · rw [importKey, if_neg none_]
    apply (reads_header kSequenceTag).fault_iff
    intro _ pos
    apply reads_version.fault_iff
    intro _ pos
    apply reads_algorithm.fault_iff
    intro _ pos
    apply (reads_header kOctetStringTag).fault_iff
    intro _ pos
    apply (reads_header kSequenceTag).fault_iff
    intro _ pos
    apply reads_version.fault_iff
    intro _ pos
    apply modulus_fault_iff
    intro modulus pos
    dsimp only
    split
    next odd => exact ⟨fun same => (by cases same), fun both => absurd both.1 odd⟩
    next even =>
      rw [and_iff_right (not_ne_iff.mp even)]
      apply (reads_component codec _ _).fault_iff
      intro _ pos
      apply (reads_component codec _ _).fault_iff
      intro _ pos
      apply (reads_component codec _ _).fault_iff
      intro _ pos
      apply (reads_component codec _ _).fault_iff
      intro _ pos
      apply (reads_component codec _ _).fault_iff
      intro _ pos
      apply (reads_component codec _ _).fault_iff
      intro _ pos
      apply (reads_component codec _ _).fault_iff
      intro _ pos
      dsimp only [Overrun]
      split <;> exact ⟨fun same => (by cases same), fun none => none.elim⟩

/-- The import comes back, with a key or without one, and stays inside its input exactly where no part that
it reaches leads it out. -/
theorem importKey_returns_iff (codec : PrivateKeyInfoCodec) (input : List Byte) :
    (codec.importKey input = .error .rejected ∨ ∃ key, codec.importKey input = .ok key) ↔ ¬ codec.Overruns input := by
  rw [← importKey_eq_fault_iff]
  cases codec.importKey input with
  | ok key => exact ⟨fun _ same => (by cases same), fun _ => .inr ⟨key, rfl⟩⟩
  | error failure =>
    cases failure with
    | rejected => exact ⟨fun _ same => (by cases same), fun _ => .inl rfl⟩
    | fault =>
      refine ⟨?_, fun some_ => absurd rfl some_⟩
      rintro (same | ⟨_, same⟩)
      · cases same
      · cases same

/-- A version whose length has its top bit set is read beyond the end of the input. -/
theorem importKey_negative :
    ¬ ∀ (codec : PrivateKeyInfoCodec) (input : List Byte),
      codec.importKey input = .error .rejected ∨ ∃ key, codec.importKey input = .ok key := by
  intro all
  have returned := all (fresh true) [0x30, 0x00, 0x02, 0x84, 0x80, 0x00, 0x00, 0x00, 0x00]
  have fault : (fresh true).importKey [0x30, 0x00, 0x02, 0x84, 0x80, 0x00, 0x00, 0x00, 0x00] = .error .fault := rfl
  rw [fault] at returned
  rcases returned with same | ⟨_, same⟩
  · cases same
  · cases same

end Import
end Libchrome.Crypto.PrivateKeyInfoCodec
