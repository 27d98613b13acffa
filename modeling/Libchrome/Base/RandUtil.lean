import Mathlib.Data.BitVec
import Mathlib.Data.Set.Card

/-! # Numbers in a range from random words (`rand_util.cc`) -/

namespace Libchrome.Base.RandUtil

/-- `max_acceptable_value`, in the arithmetic of `uint64_t`. -/
def maxAcceptableValue (range : BitVec 64) : BitVec 64 := BitVec.allOnes 64 / range * range - 1

/-- `RandGenerator` on the words that `RandUint64` returns: the value, and the words behind the last one that it took;
`none` where the loop wants more. -/
def randGenerator (range : BitVec 64) : List (BitVec 64) → Option (BitVec 64 × List (BitVec 64))
  | [] => none
  | value :: words =>
    if value > maxAcceptableValue range then randGenerator range words else some (value % range, words)

/-- A sum in `int64_t`; `none` where it overflows. -/
def addInt64 (x y : BitVec 64) : Option (BitVec 64) := if x.saddOverflow y then none else some (x + y)

/-- `range` in `RandInt`, in the arithmetic of `uint64_t`. -/
def rangeOf (min max : BitVec 32) : BitVec 64 := max.signExtend 64 - min.signExtend 64 + 1

/-- `RandInt` on the words that `RandUint64` returns. -/
def randInt (min max : BitVec 32) (words : List (BitVec 64)) : Option (Option (BitVec 32) × List (BitVec 64)) :=
  (randGenerator (rangeOf min max) words).map fun drawn =>
    ((addInt64 (min.signExtend 64) drawn.1).map (·.setWidth 32), drawn.2)

/-- The loop of `RandGenerator` ends with this word. -/
def Accepted (range word : BitVec 64) : Prop := ∃ value, randGenerator range [word] = some (value, [])

/-! ### Residues -/

theorem ncard_residues {w count modulus residue : Nat} (fits : count * modulus ≤ 2 ^ w) (small : residue < modulus) :
    {word : BitVec w | word.toNat < count * modulus ∧ word.toNat % modulus = residue}.ncard = count := by
  have below {i : Nat} (inside : i < count) : i * modulus + residue < count * modulus :=
    calc i * modulus + residue < i * modulus + modulus := Nat.add_lt_add_left small _
      _ = (i + 1) * modulus := (Nat.succ_mul i modulus).symm
      _ ≤ count * modulus := Nat.mul_le_mul_right modulus inside
  have value {i : Nat} (inside : i < count) :
      (BitVec.ofNat w (i * modulus + residue)).toNat = i * modulus + residue := by
    rw [BitVec.toNat_ofNat, Nat.mod_eq_of_lt ((below inside).trans_le fits)]
  apply Set.ncard_eq_of_bijective fun i _ => BitVec.ofNat w (i * modulus + residue)
  · rintro word ⟨bounded, left⟩
    refine ⟨word.toNat / modulus, Nat.div_lt_of_lt_mul (Nat.mul_comm count modulus ▸ bounded), ?_⟩
    rw [← left, Nat.div_add_mod', BitVec.ofNat_toNat, BitVec.setWidth_eq]
  · intro i inside
    refine ⟨?_, ?_⟩
    · rw [value inside]
      exact below inside
    · rw [value inside, Nat.add_comm, Nat.add_mul_mod_self_right, Nat.mod_eq_of_lt small]
  · intro i j insideI insideJ same
    have equal := congrArg BitVec.toNat same
    rw [value insideI, value insideJ] at equal
    exact Nat.eq_of_mul_eq_mul_right (Nat.zero_lt_of_lt small) (Nat.add_right_cancel equal)

theorem isGreatest_multiple {modulus most : Nat} (positive : 0 < modulus) :
    IsGreatest {m | modulus ∣ m ∧ m ≤ most} (most / modulus * modulus) := by
  refine ⟨⟨Nat.dvd_mul_left modulus _, Nat.div_mul_le_self most modulus⟩, ?_⟩
  rintro _ ⟨⟨count, rfl⟩, bounded⟩
  rw [Nat.mul_comm]
  exact Nat.mul_le_mul_right modulus ((Nat.le_div_iff_mul_le positive).mpr (Nat.mul_comm modulus count ▸ bounded))

/-! ### The generator -/

variable {range : BitVec 64}

theorem toNat_maxAcceptableValue (nonzero : range ≠ 0) :
    (maxAcceptableValue range).toNat + 1 = (2 ^ 64 - 1) / range.toNat * range.toNat := by
  have positive : 0 < range.toNat := Nat.pos_of_ne_zero fun zero => nonzero (BitVec.eq_of_toNat_eq zero)
  have fits : (2 ^ 64 - 1) / range.toNat * range.toNat ≤ 2 ^ 64 - 1 := Nat.div_mul_le_self _ _
  have some_ : 1 ≤ (2 ^ 64 - 1) / range.toNat * range.toNat :=
    Nat.mul_pos (Nat.div_pos (Nat.le_sub_one_of_lt range.isLt) positive) positive
  have product : (BitVec.allOnes 64 / range * range).toNat = (2 ^ 64 - 1) / range.toNat * range.toNat := by
    rw [BitVec.toNat_mul, BitVec.toNat_udiv, BitVec.toNat_allOnes, Nat.mod_eq_of_lt (by omega)]
  have one : (1 : BitVec 64).toNat = 1 := rfl
  rw [maxAcceptableValue, BitVec.toNat_sub, product, one]
  omega

theorem le_maxAcceptableValue_iff (nonzero : range ≠ 0) (word : BitVec 64) :
    ¬word > maxAcceptableValue range ↔ word.toNat < (2 ^ 64 - 1) / range.toNat * range.toNat := by
  rw [← toNat_maxAcceptableValue nonzero, gt_iff_lt, BitVec.lt_def, Nat.not_lt, Nat.lt_succ_iff]

theorem randGenerator_singleton {word value : BitVec 64} : randGenerator range [word] = some (value, []) ↔
    ¬word > maxAcceptableValue range ∧ word % range = value := by
  rw [randGenerator]
  split
  next rejected => exact iff_of_false (Option.some_ne_none _).symm fun both => both.1 rejected
  next accepted => simp [accepted]

theorem accepted_iff (nonzero : range ≠ 0) (word : BitVec 64) :
    Accepted range word ↔ word.toNat < (2 ^ 64 - 1) / range.toNat * range.toNat := by
  rw [← le_maxAcceptableValue_iff nonzero, Accepted]
  simp only [randGenerator_singleton, exists_and_left, exists_eq', and_true]

theorem randGenerator_eq_some {words rest : List (BitVec 64)} {value : BitVec 64}
    (drawn : randGenerator range words = some (value, rest)) :
    ∃ rejected word, words = rejected ++ word :: rest ∧ (∀ other ∈ rejected, ¬Accepted range other) ∧
      randGenerator range [word] = some (value, []) := by
  induction words with
  | nil => cases drawn
  | cons first words ih =>
    rw [randGenerator] at drawn
    split at drawn
    next high =>
      obtain ⟨rejected, word, split, none, last⟩ := ih drawn
      refine ⟨first :: rejected, word, congrArg (first :: ·) split, ?_, last⟩
      intro other member
      rcases List.mem_cons.mp member with rfl | member
      · rintro ⟨value, ends⟩
        exact (randGenerator_singleton.mp ends).1 high
      · exact none other member
    next low =>
      cases drawn
      exact ⟨[], first, rfl, fun _ member => absurd member List.not_mem_nil, randGenerator_singleton.mpr ⟨low, rfl⟩⟩

theorem toNat_lt_of_randGenerator (nonzero : range ≠ 0) {words rest : List (BitVec 64)} {value : BitVec 64}
    (drawn : randGenerator range words = some (value, rest)) : value.toNat < range.toNat := by
  obtain ⟨_, word, _, _, last⟩ := randGenerator_eq_some drawn
  rw [← (randGenerator_singleton.mp last).2, BitVec.toNat_umod]
  exact Nat.mod_lt _ (Nat.pos_of_ne_zero fun zero => nonzero (BitVec.eq_of_toNat_eq zero))

/-! ### `RandInt` -/

variable {min max : BitVec 32}

theorem toNat_rangeOf (ordered : min.toInt ≤ max.toInt) :
    ((rangeOf min max).toNat : Int) = max.toInt - min.toInt + 1 := by
  have least := min.le_toInt
  have most := max.toInt_lt
  have sum : rangeOf min max = BitVec.ofInt 64 (max.toInt - min.toInt + 1) := by
    apply BitVec.eq_of_toInt_eq
    rw [rangeOf, BitVec.toInt_add, BitVec.toInt_sub, BitVec.toInt_signExtend_of_le (by decide),
      BitVec.toInt_signExtend_of_le (by decide), BitVec.toInt_ofInt, Int.bmod_add_bmod]
    rfl
  rw [sum, BitVec.toNat_ofInt]
  omega

theorem rangeOf_ne_zero (ordered : min.toInt ≤ max.toInt) : rangeOf min max ≠ 0 := by
  intro zero
  have range := toNat_rangeOf ordered
  rw [zero] at range
  change (0 : Int) = _ at range
  omega

theorem toInt_setWidth_of_bounds {x : BitVec 64} (least : -2 ^ 31 ≤ x.toInt) (most : x.toInt < 2 ^ 31) :
    (x.setWidth 32).toInt = x.toInt := by
  have bound := x.isLt
  have signed := BitVec.toInt_eq_toNat_cond x
  rw [BitVec.toInt_eq_toNat_cond (x.setWidth 32), BitVec.toNat_setWidth]
  split at signed <;> split <;> omega

theorem addInt64_eq (ordered : min.toInt ≤ max.toInt) {value : BitVec 64}
    (small : value.toNat < (rangeOf min max).toNat) :
    ∃ result : BitVec 32, (addInt64 (min.signExtend 64) value).map (·.setWidth 32) = some result ∧
      result.toInt = min.toInt + value.toNat := by
  have range := toNat_rangeOf ordered
  have least := min.le_toInt
  have most := max.toInt_lt
  have drawn : value.toInt = value.toNat := BitVec.toInt_eq_toNat_of_lt (by omega)
  have extended : (min.signExtend 64).toInt = min.toInt := BitVec.toInt_signExtend_of_le (by decide)
  have fits : ¬(min.signExtend 64).saddOverflow value := by
    simp only [BitVec.saddOverflow, extended, drawn, Bool.or_eq_true, decide_eq_true_iff]
    omega
  have sum : (min.signExtend 64 + value).toInt = min.toInt + value.toNat := by
    rw [BitVec.toInt_add_of_not_saddOverflow fits, extended, drawn]
  refine ⟨(min.signExtend 64 + value).setWidth 32, by rw [addInt64, if_neg fits, Option.map_some], ?_⟩
  rw [toInt_setWidth_of_bounds (by omega) (by omega), sum]

theorem randInt_singleton (ordered : min.toInt ≤ max.toInt) {value : BitVec 32} (least : min.toInt ≤ value.toInt)
    (word : BitVec 64) : randInt min max [word] = some (some value, []) ↔
      word.toNat < (2 ^ 64 - 1) / (rangeOf min max).toNat * (rangeOf min max).toNat ∧
        word.toNat % (rangeOf min max).toNat = (value.toInt - min.toInt).toNat := by
  have nonzero := rangeOf_ne_zero ordered
  rw [← le_maxAcceptableValue_iff nonzero, randInt, randGenerator]
  split
  next rejected => exact iff_of_false (Option.some_ne_none _).symm fun both => both.1 rejected
  next accepted =>
    have residue : (word % rangeOf min max).toNat = word.toNat % (rangeOf min max).toNat := BitVec.toNat_umod
    have small : (word % rangeOf min max).toNat < (rangeOf min max).toNat :=
      residue ▸ Nat.mod_lt _ (Nat.pos_of_ne_zero fun zero => nonzero (BitVec.eq_of_toNat_eq zero))
    obtain ⟨result, sum, result_eq⟩ := addInt64_eq ordered small
    rw [Option.map_some, sum, ← residue, and_iff_right accepted]
    simp only [Option.some.injEq, Prod.mk.injEq, and_true]
    constructor
    · rintro rfl
      omega
    · intro same
      apply BitVec.eq_of_toInt_eq
      omega

/-- `RandGenerator` accepts the words below the largest multiple of its range, so that each residue is left by as many
of them, and `RandInt` returns each value between its bounds for as many words, and no other, without overflow. -/
theorem rand_unbiased :
    (∀ range : BitVec 64, range ≠ 0 →
      ∃ bound, IsGreatest {m | range.toNat ∣ m ∧ m ≤ 2 ^ 64 - 1} bound ∧
        (∀ word, Accepted range word ↔ word.toNat < bound) ∧
        ∃ count, ∀ residue < range.toNat,
          {word | Accepted range word ∧ word.toNat % range.toNat = residue}.ncard = count) ∧
    ∀ min max : BitVec 32, min.toInt ≤ max.toInt →
      (∀ words drawn rest, randInt min max words = some (drawn, rest) →
        ∃ value, drawn = some value ∧ min.toInt ≤ value.toInt ∧ value.toInt ≤ max.toInt) ∧
      ∃ count, 0 < count ∧ ∀ value : BitVec 32, min.toInt ≤ value.toInt → value.toInt ≤ max.toInt →
        {word | randInt min max [word] = some (some value, [])}.ncard = count := by
  constructor
  · intro range nonzero
    have positive : 0 < range.toNat := Nat.pos_of_ne_zero fun zero => nonzero (BitVec.eq_of_toNat_eq zero)
    have accepted := accepted_iff nonzero
    refine ⟨_, isGreatest_multiple positive, accepted, (2 ^ 64 - 1) / range.toNat, fun residue small => ?_⟩
    simp only [accepted]
    exact ncard_residues ((Nat.div_mul_le_self _ _).trans (by decide)) small
  · intro min max ordered
    have range := toNat_rangeOf ordered
    have positive : 0 < (rangeOf min max).toNat := by omega
    constructor
    · intro words drawn rest result
      obtain ⟨⟨value, left⟩, generated, same⟩ := Option.map_eq_some_iff.mp result
      have small := toNat_lt_of_randGenerator (rangeOf_ne_zero ordered) generated
      obtain ⟨value, sum, value_eq⟩ := addInt64_eq ordered small
      cases same
      exact ⟨value, sum, by omega, by omega⟩
    · refine ⟨(2 ^ 64 - 1) / (rangeOf min max).toNat, ?_, fun value least most => ?_⟩
      · exact Nat.div_pos (Nat.le_sub_one_of_lt (rangeOf min max).isLt) positive
      · simp only [randInt_singleton ordered least]
        exact ncard_residues ((Nat.div_mul_le_self _ _).trans (by decide)) (by omega)

end Libchrome.Base.RandUtil
