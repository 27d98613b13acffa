import Mathlib.Data.BitVec
import Mathlib.Tactic.Linarith

/-! `DoIsStringASCII` (`string_util.cc`), which tests a word of characters at a time. -/

namespace Libchrome.Base.Strings

/-! ### Characters and machine words -/

/-- The width of `MachineWord`, which is `uintptr_t`. -/
inductive MachineWord
  | word32
  | word64
  deriving DecidableEq

/-- `sizeof(MachineWord)`. -/
def MachineWord.size : MachineWord → Nat
  | .word32 => 4
  | .word64 => 8

abbrev MachineWord.bits (w : MachineWord) : Nat := 8 * w.size

/-- The character types that `NonASCIIMask` has a value for. -/
inductive CharacterType
  | char
  | char16
  | wchar
  deriving DecidableEq

def CharacterType.size : CharacterType → Nat
  | .char => 1
  | .char16 => 2
  | .wchar => 4

abbrev CharacterType.bits (t : CharacterType) : Nat := 8 * t.size

/-- What the compiler decides: the width of a word, and which of the character types have a sign. -/
structure Platform where
  word : MachineWord
  signed : CharacterType → Bool

/-- `NonASCIIMask<sizeof(MachineWord), CharacterType>::value()`. -/
def nonASCIIMask (w : MachineWord) (t : CharacterType) : BitVec w.bits :=
  match w, t with
  | .word32, .char16 => 0xFF80FF80#32
  | .word32, .char => 0x80808080#32
  | .word64, .char16 => 0xFF80FF80FF80FF80#64
  | .word64, .char => 0x8080808080808080#64
  | .word32, .wchar => 0xFFFFFF80#32
  | .word64, .wchar => 0xFFFFFF80FFFFFF80#64

def kMachineWordAlignmentMask (w : MachineWord) : BitVec w.bits := BitVec.ofNat w.bits (w.size - 1)

def isAlignedToMachineWord {w : MachineWord} (pointer : BitVec w.bits) : Bool :=
  pointer &&& kMachineWordAlignmentMask w = 0

def alignToMachineWord {w : MachineWord} (pointer : BitVec w.bits) : BitVec w.bits :=
  pointer &&& ~~~ kMachineWordAlignmentMask w

/-- A character converted to a machine word. -/
def promote (p : Platform) {t : CharacterType} (c : BitVec t.bits) : BitVec p.word.bits :=
  if p.signed t then c.signExtend p.word.bits else c.setWidth p.word.bits

/-- The machine word that these characters make up in memory, the first one in the lowest bits. -/
def machineWord (w : MachineWord) {t : CharacterType} : List (BitVec t.bits) → BitVec w.bits
  | [] => 0
  | c :: rest => machineWord w rest <<< t.bits ||| c.setWidth w.bits

/-! ### The test -/

/-- Where `characters` points, the bits of the characters before, and the characters up to `end`. -/
structure Scan (p : Platform) (t : CharacterType) where
  characters : BitVec p.word.bits
  allCharBits : BitVec p.word.bits
  rest : List (BitVec t.bits)

variable {p : Platform} {t : CharacterType}

/-- Align the input. -/
def prologue (characters allCharBits : BitVec p.word.bits) : List (BitVec t.bits) → Scan p t
  | [] => ⟨characters, allCharBits, []⟩
  | c :: rest =>
    if isAlignedToMachineWord characters then ⟨characters, allCharBits, c :: rest⟩
    else prologue (characters + BitVec.ofNat _ t.size) (allCharBits ||| promote p c) rest

/-- Compare the values of CPU word size; none when a word is not wholly inside the buffer. -/
def wordLoop (wordEnd : BitVec p.word.bits) : Nat → Scan p t → Option (Scan p t)
  | 0, _ => none
  | fuel + 1, s =>
    if s.characters < wordEnd then
      let loopIncrement := p.word.size / t.size
      if loopIncrement ≤ s.rest.length then
        wordLoop wordEnd fuel ⟨s.characters + BitVec.ofNat _ p.word.size,
          s.allCharBits ||| machineWord p.word (s.rest.take loopIncrement), s.rest.drop loopIncrement⟩
      else none
    else some s

/-- Process the remaining characters. -/
def epilogue (s : Scan p t) : BitVec p.word.bits :=
  s.rest.foldl (fun allCharBits c => allCharBits ||| promote p c) s.allCharBits

/-- `DoIsStringASCII` of a buffer that starts at `characters`; none when it reads a word outside the buffer. -/
def doIsStringASCII (p : Platform) {t : CharacterType} (characters : BitVec p.word.bits) (text : List (BitVec t.bits)) :
    Option Bool :=
  let wordEnd := alignToMachineWord (characters + BitVec.ofNat _ (t.size * text.length))
  (wordLoop wordEnd (text.length + 1) (prologue characters 0 text)).map fun s =>
    epilogue s &&& nonASCIIMask p.word t = 0

/-! ### The mask is right for each character width -/

theorem getLsbD_nonASCIIMask (w : MachineWord) (t : CharacterType) :
    ∀ i < w.bits, (nonASCIIMask w t).getLsbD i = decide (7 ≤ i % t.bits) := by
  cases w <;> cases t <;> decide +kernel

/-- No bit of the mask is set in a word of all character bits. -/
def Clear (t : CharacterType) {w : MachineWord} (word : BitVec w.bits) : Prop := word &&& nonASCIIMask w t = 0

variable {w : MachineWord}

theorem clear_iff (word : BitVec w.bits) : Clear t word ↔ ∀ i < w.bits, 7 ≤ i % t.bits → word.getLsbD i = false := by
  constructor
  · intro clear i bound high
    have bit := congrArg (fun masked => masked.getLsbD i) clear
    simpa only [BitVec.getLsbD_and, getLsbD_nonASCIIMask w t i bound, decide_eq_true high, Bool.and_true,
      BitVec.ofNat_eq_ofNat, BitVec.getLsbD_zero] using bit
  · intro low
    apply BitVec.eq_of_getLsbD_eq
    intro i bound
    rw [BitVec.getLsbD_and, getLsbD_nonASCIIMask w t i bound, BitVec.ofNat_eq_ofNat, BitVec.getLsbD_zero]
    by_cases high : 7 ≤ i % t.bits
    · rw [low i bound high, Bool.false_and]
    · rw [decide_eq_false high, Bool.and_false]

theorem clear_or (a b : BitVec w.bits) : Clear t (a ||| b) ↔ Clear t a ∧ Clear t b := by
  simp only [clear_iff, BitVec.getLsbD_or, Bool.or_eq_false_iff]
  exact ⟨fun both => ⟨fun i bound high => (both i bound high).1, fun i bound high => (both i bound high).2⟩,
    fun both i bound high => ⟨both.1 i bound high, both.2 i bound high⟩⟩

def isASCII (c : BitVec t.bits) : Bool := c.toNat < 0x80

theorem isASCII_iff (c : BitVec t.bits) : isASCII c = true ↔ ∀ i < t.bits, 7 ≤ i → c.getLsbD i = false := by
  rw [isASCII, decide_eq_true_iff]
  constructor
  · intro small i _ high
    exact Nat.testBit_lt_two_pow (small.trans_le (Nat.pow_le_pow_right Nat.two_pos high))
  · intro low
    refine Nat.lt_pow_two_of_testBit (n := 7) c.toNat fun i high => ?_
    by_cases bound : i < t.bits
    · exact low i bound high
    · exact BitVec.getLsbD_of_ge c i (not_lt.mp bound)

theorem seven_lt_bits (t : CharacterType) : 7 < t.bits := by
  cases t <;> decide

theorem clear_promote (p : Platform) (fits : t.bits ≤ p.word.bits) (c : BitVec t.bits) :
    Clear t (promote p c) ↔ isASCII c = true := by
  have positive := seven_lt_bits t
  rw [clear_iff, isASCII_iff]
  constructor
  · intro clear i bound high
    have bit := clear i (bound.trans_le fits) (by rwa [Nat.mod_eq_of_lt bound])
    rw [promote] at bit
    split at bit
    next =>
      rw [BitVec.getLsbD_signExtend, if_pos bound, decide_eq_true (bound.trans_le fits), Bool.true_and] at bit
      exact bit
    next =>
      rw [BitVec.getLsbD_setWidth, decide_eq_true (bound.trans_le fits), Bool.true_and] at bit
      exact bit
  · intro low i bound high
    have top : c.msb = false := by
      rw [BitVec.msb_eq_getLsbD_last]
      exact low _ (by omega) (by omega)
    rw [promote]
    split
    next =>
      rw [BitVec.getLsbD_signExtend, top, decide_eq_true bound, Bool.true_and]
      split
      next inside => exact low i inside (by rwa [Nat.mod_eq_of_lt inside] at high)
      next => rfl
    next =>
      rw [BitVec.getLsbD_setWidth, decide_eq_true bound, Bool.true_and]
      by_cases inside : i < t.bits
      · exact low i inside (by rwa [Nat.mod_eq_of_lt inside] at high)
      · exact BitVec.getLsbD_of_ge c i (not_lt.mp inside)

theorem getLsbD_machineWord (w : MachineWord) (characters : List (BitVec t.bits)) (i : Nat) (bound : i < w.bits) :
    (machineWord w characters).getLsbD i = (characters.getD (i / t.bits) 0).getLsbD (i % t.bits) := by
  have positive : 0 < t.bits := (Nat.zero_lt_succ 6).trans (seven_lt_bits t)
  induction characters generalizing i with
  | nil => simp only [machineWord, List.getD_nil, BitVec.ofNat_eq_ofNat, BitVec.getLsbD_zero]
  | cons c rest ih =>
    rw [machineWord, BitVec.getLsbD_or, BitVec.getLsbD_shiftLeft, BitVec.getLsbD_setWidth, decide_eq_true bound]
    simp only [Bool.true_and]
    by_cases inside : i < t.bits
    · rw [decide_eq_true inside, Nat.div_eq_of_lt inside, Nat.mod_eq_of_lt inside, List.getD_cons_zero]
      simp only [Bool.not_true, Bool.false_and, Bool.false_or]
    · have above : t.bits ≤ i := not_lt.mp inside
      have place : i / t.bits = (i - t.bits) / t.bits + 1 := by
        rw [← Nat.add_div_right _ positive, Nat.sub_add_cancel above]
      rw [decide_eq_false inside, ih (i - t.bits) (by omega), place, List.getD_cons_succ, ← Nat.mod_eq_sub_mod above,
        BitVec.getLsbD_of_ge c i above]
      simp only [Bool.not_false, Bool.true_and, Bool.or_false]

theorem clear_machineWord {characters : List (BitVec t.bits)} (whole : t.bits * characters.length = w.bits) :
    Clear t (machineWord w characters) ↔ ∀ c ∈ characters, isASCII c = true := by
  have positive : 0 < t.bits := (Nat.zero_lt_succ 6).trans (seven_lt_bits t)
  rw [clear_iff]
  constructor
  · intro clear c member
    obtain ⟨j, inside, rfl⟩ := List.getElem_of_mem member
    rw [isASCII_iff]
    intro r bound high
    have place : t.bits * j + r < w.bits := by
      rw [← whole]
      calc t.bits * j + r < t.bits * (j + 1) := by rw [Nat.mul_succ]; omega
        _ ≤ t.bits * characters.length := Nat.mul_le_mul_left _ inside
    have bit := clear (t.bits * j + r) place (by rwa [Nat.mul_add_mod, Nat.mod_eq_of_lt bound])
    rw [getLsbD_machineWord w characters _ place, Nat.mul_add_mod, Nat.mod_eq_of_lt bound, Nat.mul_add_div positive,
      Nat.div_eq_of_lt bound, Nat.add_zero, List.getD_eq_getElem?_getD, List.getElem?_eq_getElem inside, Option.getD_some] at bit
    exact bit
  · intro ascii i bound high
    have inside : i / t.bits < characters.length := by
      rw [Nat.div_lt_iff_lt_mul positive, Nat.mul_comm, whole]
      exact bound
    rw [getLsbD_machineWord w characters i bound, List.getD_eq_getElem?_getD, List.getElem?_eq_getElem inside, Option.getD_some]
    exact (isASCII_iff _).mp (ascii _ (List.getElem_mem inside)) _ (Nat.mod_lt i positive) high

/-! ### Aligned pointers -/

theorem and_alignmentMask (pointer : BitVec w.bits) :
    (pointer &&& kMachineWordAlignmentMask w).toNat = pointer.toNat % w.size := by
  cases w
  · exact (BitVec.toNat_and _ _).trans (Nat.and_two_pow_sub_one_eq_mod pointer.toNat 2)
  · exact (BitVec.toNat_and _ _).trans (Nat.and_two_pow_sub_one_eq_mod pointer.toNat 3)

theorem isAligned_iff (pointer : BitVec w.bits) : isAlignedToMachineWord pointer = true ↔ w.size ∣ pointer.toNat := by
  rw [isAlignedToMachineWord, decide_eq_true_iff, Nat.dvd_iff_mod_eq_zero, ← and_alignmentMask]
  exact ⟨fun zero => congrArg BitVec.toNat zero, fun zero => BitVec.eq_of_toNat_eq zero⟩

theorem toNat_alignToMachineWord (pointer : BitVec w.bits) :
    (alignToMachineWord pointer).toNat + pointer.toNat % w.size = pointer.toNat := by
  have apart : alignToMachineWord pointer &&& (pointer &&& kMachineWordAlignmentMask w) = 0#_ := by
    ext i
    simp only [alignToMachineWord, BitVec.getElem_and, BitVec.getElem_not, BitVec.getElem_zero]
    cases pointer[i] <;> cases (kMachineWordAlignmentMask w)[i] <;> rfl
  have together : alignToMachineWord pointer ||| (pointer &&& kMachineWordAlignmentMask w) = pointer := by
    ext i
    simp only [alignToMachineWord, BitVec.getElem_and, BitVec.getElem_or, BitVec.getElem_not]
    cases pointer[i] <;> cases (kMachineWordAlignmentMask w)[i] <;> rfl
  calc (alignToMachineWord pointer).toNat + pointer.toNat % w.size
      = (alignToMachineWord pointer).toNat + (pointer &&& kMachineWordAlignmentMask w).toNat := by rw [and_alignmentMask]
    _ = (alignToMachineWord pointer + (pointer &&& kMachineWordAlignmentMask w)).toNat :=
      (BitVec.toNat_add_of_and_eq_zero apart).symm
    _ = pointer.toNat := by rw [BitVec.add_eq_or_of_and_eq_zero _ _ apart, together]

/-! ### The scan partitions the buffer -/

/-- A buffer of characters, in memory that the address space holds. -/
structure CharacterBuffer (p : Platform) (t : CharacterType) where
  characters : BitVec p.word.bits
  text : List (BitVec t.bits)
  fits : characters.toNat + t.size * text.length < 2 ^ p.word.bits

/-- The scan ends where the buffer does, and it has found all bits of the characters before. -/
structure Scan.Covers (s : Scan p t) (finish : Nat) (text : List (BitVec t.bits)) : Prop where
  ends : s.characters.toNat + t.size * s.rest.length = finish
  found : (Clear t s.allCharBits ∧ ∀ c ∈ s.rest, isASCII c = true) ↔ ∀ c ∈ text, isASCII c = true

theorem bits_le (w : MachineWord) (t : CharacterType) : t.bits ≤ w.bits := by
  cases w <;> cases t <;> decide

/-- The pointer moves on by what it has read. -/
theorem toNat_advance (pointer : BitVec w.bits) (size rest : Nat) (fits : pointer.toNat + (size + rest) < 2 ^ w.bits) :
    (pointer + BitVec.ofNat w.bits size).toNat = pointer.toNat + size := by
  rw [BitVec.toNat_add, BitVec.toNat_ofNat, Nat.mod_eq_of_lt (show size < 2 ^ w.bits by omega),
    Nat.mod_eq_of_lt (by omega)]

theorem prologue_covers {finish : Nat} (fits : finish < 2 ^ p.word.bits) {text : List (BitVec t.bits)}
    (characters allCharBits : BitVec p.word.bits) (rest : List (BitVec t.bits))
    (covers : (Scan.mk characters allCharBits rest : Scan p t).Covers finish text) :
    (prologue characters allCharBits rest).Covers finish text ∧
      (p.word.size ∣ (prologue characters allCharBits rest).characters.toNat ∨
        (prologue characters allCharBits rest).rest = []) := by
  induction rest generalizing characters allCharBits with
  | nil => exact ⟨covers, .inr rfl⟩
  | cons c rest ih =>
    rw [prologue]
    split
    next aligned => exact ⟨covers, .inl ((isAligned_iff characters).mp aligned)⟩
    next =>
      have ends : characters.toNat + (t.size + t.size * rest.length) = finish := by
        rw [← covers.ends, List.length_cons, Nat.mul_succ, Nat.add_comm (t.size * rest.length)]
      apply ih
      constructor
      · dsimp only
        rw [toNat_advance characters t.size _ (ends.trans_lt fits), Nat.add_assoc, ends]
      · rw [← covers.found, clear_or, clear_promote p (bits_le p.word t), List.forall_mem_cons, and_assoc]

theorem length_prologue_le (characters allCharBits : BitVec p.word.bits) (rest : List (BitVec t.bits)) :
    (prologue characters allCharBits rest).rest.length ≤ rest.length := by
  induction rest generalizing characters allCharBits with
  | nil => exact le_rfl
  | cons c rest ih =>
    rw [prologue]
    split
    next => exact le_rfl
    next => exact (ih _ _).trans (Nat.le_succ _)

theorem wordLoop_covers {finish : Nat} (fits : finish < 2 ^ p.word.bits) {text : List (BitVec t.bits)}
    (wordEnd : BitVec p.word.bits) (ends : wordEnd.toNat + finish % p.word.size = finish) (fuel : Nat) (s : Scan p t)
    (covers : s.Covers finish text) (aligned : p.word.size ∣ s.characters.toNat ∨ s.rest = [])
    (enough : s.rest.length < fuel) :
    ∃ after, wordLoop wordEnd fuel s = some after ∧ after.Covers finish text := by
  have positive : 0 < p.word.size := by cases p.word <;> decide
  have whole : t.size * (p.word.size / t.size) = p.word.size := by
    cases p.word <;> cases t <;> decide
  have wide : t.bits * (p.word.size / t.size) = p.word.bits := by rw [Nat.mul_assoc, whole]
  induction fuel generalizing s with
  | zero => exact absurd enough (Nat.not_lt_zero _)
  | succ fuel ih =>
    rw [wordLoop]
    split
    next before =>
      rw [BitVec.lt_def] at before
      -- Both the pointer and the end of the loop are multiples of a word's size, so a whole word lies between them.
      have room : s.characters.toNat + p.word.size ≤ wordEnd.toNat := by
        have divides : p.word.size ∣ s.characters.toNat := by
          apply aligned.resolve_right
          intro none
          have reached := covers.ends
          rw [none, List.length_nil, Nat.mul_zero, Nat.add_zero] at reached
          omega
        have endDivides : p.word.size ∣ wordEnd.toNat := by
          rw [Nat.eq_sub_of_add_eq ends]
          exact Nat.dvd_sub_mod finish
        obtain ⟨i, place⟩ := divides
        obtain ⟨j, last⟩ := endDivides
        rw [place, last] at before ⊢
        calc p.word.size * i + p.word.size = p.word.size * (i + 1) := (Nat.mul_succ _ _).symm
          _ ≤ p.word.size * j := Nat.mul_le_mul_left _ (lt_of_mul_lt_mul_left before (Nat.zero_le _))
      have remaining := covers.ends
      have enoughLeft : p.word.size / t.size ≤ s.rest.length := by
        have sizes : t.size * (p.word.size / t.size) ≤ t.size * s.rest.length := by rw [whole]; omega
        exact le_of_mul_le_mul_left sizes (by cases t <;> decide)
      rw [if_pos enoughLeft]
      have taken : (s.rest.take (p.word.size / t.size)).length = p.word.size / t.size := by
        rw [List.length_take, Nat.min_eq_left enoughLeft]
      have left : t.size * s.rest.length = p.word.size + t.size * (s.rest.drop (p.word.size / t.size)).length := by
        rw [List.length_drop, Nat.mul_sub, whole, Nat.add_sub_cancel' (by omega)]
      have advanced := toNat_advance s.characters p.word.size
        (t.size * (s.rest.drop (p.word.size / t.size)).length) (by omega)
      apply ih
      · constructor
        · dsimp only
          rw [advanced, ← remaining, left, Nat.add_assoc]
        · have parts : (∀ c ∈ s.rest, isASCII c = true) ↔
              (∀ c ∈ s.rest.take (p.word.size / t.size), isASCII c = true) ∧
                ∀ c ∈ s.rest.drop (p.word.size / t.size), isASCII c = true := by
            rw [← List.forall_mem_append, List.take_append_drop]
          rw [← covers.found, parts, clear_or, clear_machineWord (by rw [taken, wide]), and_assoc]
      · dsimp only
        rw [advanced]
        refine aligned.imp (fun divides => (Nat.dvd_add_right divides).mpr dvd_rfl) fun none => ?_
        rw [none, List.drop_nil]
      · dsimp only
        rw [List.length_drop]
        have step : 0 < p.word.size / t.size := by
          cases p.word <;> cases t <;> decide
        omega
    next => exact ⟨s, rfl, covers⟩

theorem clear_epilogue (s : Scan p t) :
    Clear t (epilogue s) ↔ Clear t s.allCharBits ∧ ∀ c ∈ s.rest, isASCII c = true := by
  obtain ⟨characters, allCharBits, rest⟩ := s
  rw [epilogue]
  induction rest generalizing allCharBits with
  | nil => exact (and_iff_left (List.forall_mem_nil _)).symm
  | cons c rest ih =>
    rw [List.foldl_cons, ih, clear_or, clear_promote p (bits_le p.word t), List.forall_mem_cons, and_assoc]

/-- `DoIsStringASCII` reads no word that is not wholly inside the buffer, and tests whether all characters are ASCII. -/
theorem doIsStringASCII_eq (buffer : CharacterBuffer p t) :
    doIsStringASCII p buffer.characters buffer.text = some (decide (∀ c ∈ buffer.text, c.toNat < 0x80)) := by
  obtain ⟨characters, text, fits⟩ := buffer
  dsimp only
  have finish := toNat_advance characters (t.size * text.length) 0 fits
  have start : (Scan.mk characters 0 text : Scan p t).Covers (characters.toNat + t.size * text.length) text := by
    refine ⟨rfl, and_iff_right ?_⟩
    exact BitVec.zero_and
  obtain ⟨covers, aligned⟩ := prologue_covers fits characters 0 text start
  have ends := toNat_alignToMachineWord (characters + BitVec.ofNat p.word.bits (t.size * text.length))
  rw [finish] at ends
  obtain ⟨after, ran, covered⟩ := wordLoop_covers fits _ ends (text.length + 1) _ covers aligned
    (Nat.lt_succ_of_le (length_prologue_le characters 0 text))
  rw [doIsStringASCII, ran, Option.map_some]
  congr 1
  rw [decide_eq_decide]
  exact (clear_epilogue after).trans (covered.found.trans (by simp only [isASCII, decide_eq_true_iff]))

end Libchrome.Base.Strings
