import Libchrome.Base.Numerics.SafeMath

/-!
# The checked operations are exact

Each checked operation on one type reports a valid result exactly when the type holds the exact one, and
then returns it.
-/

namespace Libchrome.Base.Numerics

open Library

variable {T : IntegralType}

/-- A checked operation tells whether its type holds the exact result, and returns it if so. -/
structure Checks (checked : Checked T) (exact : Int) : Prop where
  valid_iff : checked.validity = .valid ↔ T.Holds exact
  number : T.Holds exact → checked.result.number = exact

theorem hasSignBit_eq_msb (x : Value T) : hasSignBit x = x.msb := by
  have nonzero : x >>> (T.width - 1) ≠ 0 ↔ 2 ^ (T.width - 1) ≤ x.toNat := by
    rw [ne_eq, ← BitVec.toNat_inj, BitVec.toNat_ushiftRight, Nat.shiftRight_eq_div_pow]
    simp only [BitVec.ofNat_eq_ofNat, BitVec.toNat_ofNat, Nat.zero_mod]
    rw [Nat.div_eq_zero_iff]
    have positive := Nat.two_pow_pos (T.width - 1)
    omega
  rw [BitVec.msb_eq_decide, hasSignBit]
  exact decide_eq_decide.mpr nonzero

theorem constraint_eq_valid {valid overflows : Prop} [Decidable valid] [Decidable overflows] :
    (if valid then RangeConstraint.valid else if overflows then .overflow else .underflow) = .valid ↔
      valid := by
  split
  · exact iff_of_true rfl ‹_›
  · split <;> exact iff_of_false nofun ‹_›

theorem valid_or_overflow {valid : Prop} [Decidable valid] :
    (if valid then RangeConstraint.valid else .overflow) = .valid ↔ valid := by
  split
  · exact iff_of_true rfl ‹_›
  · exact iff_of_false nofun ‹_›

theorem valid_or_underflow {valid : Prop} [Decidable valid] :
    (if valid then RangeConstraint.valid else .underflow) = .valid ↔ valid := by
  split
  · exact iff_of_true rfl ‹_›
  · exact iff_of_false nofun ‹_›

theorem number_of_signed (signed : T.isSigned = true) (x : Value T) : x.number = x.toInt := by
  rw [Value.number, signed, intOf, if_pos rfl]

theorem number_of_unsigned (unsigned : T.isSigned = false) (x : Value T) : x.number = x.toNat := by
  rw [Value.number, unsigned, intOf, if_neg Bool.false_ne_true]

theorem holds_of_signed (signed : T.isSigned = true) (n : Int) :
    T.Holds n ↔ -2 ^ (T.width - 1) ≤ n ∧ n < 2 ^ (T.width - 1) := by
  simp only [IntegralType.Holds, Fits, lowest, highest, signed, if_true]
  omega

theorem holds_of_unsigned (unsigned : T.isSigned = false) (n : Int) :
    T.Holds n ↔ 0 ≤ n ∧ n < 2 ^ T.width := by
  simp only [IntegralType.Holds, Fits, lowest, highest, unsigned, Bool.false_eq_true, if_false]
  omega

theorem signs_of_add (x y : Value T) :
    hasSignBit (binaryComplement (((x + y) ^^^ x) &&& ((x + y) ^^^ y))) = !x.saddOverflow y := by
  rw [BitVec.saddOverflow_eq, hasSignBit_eq_msb, binaryComplement, BitVec.msb_not, BitVec.msb_and,
    BitVec.msb_xor, BitVec.msb_xor, decide_eq_true T.width_pos]
  cases x.msb <;> cases y.msb <;> cases (x + y).msb <;> rfl

theorem signs_of_sub (x y : Value T) :
    hasSignBit (binaryComplement (((x - y) ^^^ x) &&& (x ^^^ y))) = !x.ssubOverflow y := by
  rw [BitVec.ssubOverflow_eq, hasSignBit_eq_msb, binaryComplement, BitVec.msb_not, BitVec.msb_and,
    BitVec.msb_xor, BitVec.msb_xor, decide_eq_true T.width_pos]
  cases x.msb <;> cases y.msb <;> cases (x - y).msb <;> rfl

theorem checkedAdd_checks (x y : Value T) : Checks (checkedAdd x y) (x.number + y.number) where
  valid_iff := by
    unfold checkedAdd
    cases sign : T.isSigned with
    | false =>
      have bound := x.isLt
      have power : ((2 ^ T.width : Nat) : Int) = 2 ^ T.width := by push_cast; rfl
      simp only [Bool.false_eq_true, if_false]
      rw [valid_or_overflow, holds_of_unsigned sign, binaryComplement, number_of_unsigned sign,
        number_of_unsigned sign, number_of_unsigned sign, BitVec.toNat_not]
      omega
    | true =>
      simp only [if_true]
      rw [constraint_eq_valid, signs_of_add, holds_of_signed sign, number_of_signed sign, number_of_signed sign]
      simp only [BitVec.saddOverflow, Bool.not_eq_true', Bool.or_eq_false_iff, decide_eq_false_iff_not]
      omega
  number holds := intOf_eq T.width_pos (add_eq_ofInt T.isSigned x y) holds

theorem checkedSub_checks (x y : Value T) : Checks (checkedSub x y) (x.number - y.number) where
  valid_iff := by
    unfold checkedSub
    cases sign : T.isSigned with
    | false =>
      have bound := x.isLt
      have power : ((2 ^ T.width : Nat) : Int) = 2 ^ T.width := by push_cast; rfl
      simp only [Bool.false_eq_true, if_false]
      rw [valid_or_underflow, holds_of_unsigned sign, number_of_unsigned sign, number_of_unsigned sign]
      omega
    | true =>
      simp only [if_true]
      rw [constraint_eq_valid, signs_of_sub, holds_of_signed sign, number_of_signed sign, number_of_signed sign]
      simp only [BitVec.ssubOverflow, Bool.not_eq_true', Bool.or_eq_false_iff, decide_eq_false_iff_not]
      omega
  number holds := intOf_eq T.width_pos (sub_eq_ofInt T.isSigned x y) holds

/-- The largest magnitude of a value. -/
def magnitude (T : IntegralType) : Nat := max T.min.natAbs T.max.natAbs

theorem natAbs_le_magnitude (x : Value T) : x.number.natAbs ≤ magnitude T := by
  obtain ⟨below, above⟩ : T.min ≤ x.number ∧ x.number ≤ T.max := x.holds
  have least := Nat.le_max_left T.min.natAbs T.max.natAbs
  have greatest := Nat.le_max_right T.min.natAbs T.max.natAbs
  unfold magnitude
  omega

theorem magnitude_squared (narrow : T.sizeof * 2 ≤ 8) :
    staticDstRangeRelationToSrcRange (twiceWiderInteger T) T = .contained ∧
      ((magnitude T * magnitude T : Nat) : Int) ≤ (twiceWiderInteger T).max ∧
      (T.isSigned = true → (twiceWiderInteger T).min ≤ -((magnitude T * magnitude T : Nat) : Int)) := by
  revert narrow
  rcases T with ⟨_ | _ | _ | _, _ | _⟩ <;> decide

theorem twiceWider_holds (narrow : T.sizeof * 2 ≤ 8) (x y : Value T) :
    (twiceWiderInteger T).Holds (x.number * y.number) := by
  obtain ⟨_, above, below⟩ := magnitude_squared narrow
  have product : (x.number * y.number).natAbs ≤ magnitude T * magnitude T := by
    rw [Int.natAbs_mul]
    exact Nat.mul_le_mul (natAbs_le_magnitude x) (natAbs_le_magnitude y)
  suffices bounds : (twiceWiderInteger T).min ≤ x.number * y.number ∧
      x.number * y.number ≤ (twiceWiderInteger T).max from bounds
  cases sign : T.isSigned with
  | false =>
    have nonneg : 0 ≤ x.number * y.number := by
      rw [number_of_unsigned sign, number_of_unsigned sign]
      exact Int.mul_nonneg (Int.natCast_nonneg _) (Int.natCast_nonneg _)
    have least := (twiceWiderInteger T).min_nonpos
    omega
  | true =>
    have least := below sign
    omega

theorem checkedMul_checks (x y : Value T) : Checks (checkedMul x y .valid) (x.number * y.number) := by
  have product : x * y = Value.of T (x.number * y.number) := mul_eq_ofInt T.isSigned x y
  have number : T.Holds (x.number * y.number) → Value.number (T := T) (x * y) = x.number * y.number :=
    intOf_eq T.width_pos product
  unfold checkedMul
  split
  next narrow =>
    obtain ⟨contained, _⟩ := magnitude_squared narrow
    have tmp : Value.number (T := twiceWiderInteger T)
        (staticCast (twiceWiderInteger T) x * staticCast (twiceWiderInteger T) y) = x.number * y.number := by
      refine intOf_eq (twiceWiderInteger T).width_pos ?_ (twiceWider_holds narrow x y)
      rw [mul_eq_ofInt (twiceWiderInteger T).isSigned]
      exact congrArg _ (congrArg₂ _ (staticCast_number (x.holds.mono contained))
        (staticCast_number (y.holds.mono contained)))
    dsimp only
    constructor
    · rw [dstRangeRelationToSrcRange_eq_valid, tmp]
    · intro holds
      rw [staticCast_number (by rwa [tmp]), tmp]
  next =>
    have below : T.min ≤ 0 := T.min_nonpos
    have above : 0 ≤ T.max := T.max_nonneg
    have bounds : ∀ n, T.Holds n ↔ T.min ≤ n ∧ n ≤ T.max := fun n => Iff.rfl
    cases sign : T.isSigned with
    | false =>
      simp only [Bool.false_eq_true, if_false]
      refine ⟨?_, number⟩
      have nonneg : 0 ≤ y.number := by
        rw [number_of_unsigned sign]
        exact Int.natCast_nonneg _
      have product_nonneg : 0 ≤ x.number * y.number := by
        rw [number_of_unsigned sign x]
        exact Int.mul_nonneg (Int.natCast_nonneg _) nonneg
      rw [valid_or_overflow, bounds]
      by_cases zero : y.number = 0
      · rw [zero, Int.mul_zero]
        exact iff_of_true (.inl rfl) ⟨below, above⟩
      · rw [le_tdiv_iff above (by omega)]
        omega
    | true =>
      simp only [if_true]
      split
      next zero =>
        have exact_ : x.number * y.number = 0 := by
          rcases zero with zero | zero <;> simp [zero]
        rw [exact_]
        have holds : T.Holds 0 := ⟨below, above⟩
        exact ⟨iff_of_true rfl holds, Value.number_of⟩
      next nonzero =>
        split
        next positive =>
          split
          next positive' =>
            refine ⟨?_, number⟩
            rw [valid_or_overflow, le_tdiv_iff above positive', bounds]
            have product_nonneg := Int.mul_pos positive positive'
            omega
          next negative =>
            refine ⟨?_, number⟩
            rw [valid_or_underflow, ge_iff_le, tdiv_le_iff below positive, bounds, Int.mul_comm y.number]
            have product_nonpos := Int.mul_neg_of_pos_of_neg positive (show y.number < 0 by omega)
            omega
        next negative =>
          split
          next positive' =>
            refine ⟨?_, number⟩
            rw [valid_or_underflow, ge_iff_le, tdiv_le_iff below positive', bounds]
            have product_nonpos := Int.mul_neg_of_neg_of_pos (show x.number < 0 by omega) positive'
            omega
          next negative' =>
            refine ⟨?_, number⟩
            rw [valid_or_overflow, ge_iff_le, tdiv_le_iff_of_neg above (by omega), bounds, Int.mul_comm y.number]
            have product_nonneg := Int.mul_pos_of_neg_of_neg (show x.number < 0 by omega) (show y.number < 0 by omega)
            omega

/-- A signed type has one more negative integer than positive ones. -/
theorem min_of_signed (signed : T.isSigned = true) : T.min = -T.max - 1 ∧ 1 ≤ T.max := by
  revert signed
  rcases T with ⟨_ | _ | _ | _, _ | _⟩ <;> decide

theorem number_minusOne (signed : T.isSigned = true) : (Value.of T (-1)).number = -1 := by
  obtain ⟨least, greatest⟩ := min_of_signed signed
  exact Value.number_of ⟨show T.min ≤ -1 by omega, show -1 ≤ T.max by omega⟩

theorem tdiv_holds {x y : Value T} (nonzero : y.number ≠ 0)
    (notMinimum : ¬(T.isSigned ∧ x.number = T.min ∧ y = Value.of T (-1))) : T.Holds (x.number.tdiv y.number) := by
  obtain ⟨below, above⟩ : T.min ≤ x.number ∧ x.number ≤ T.max := x.holds
  have smaller : (x.number.tdiv y.number).natAbs = x.number.natAbs / y.number.natAbs := Int.natAbs_tdiv ..
  suffices bounds : T.min ≤ x.number.tdiv y.number ∧ x.number.tdiv y.number ≤ T.max from bounds
  cases sign : T.isSigned with
  | false =>
    rw [IntegralType.min_of_unsigned sign] at below ⊢
    have nonneg : 0 ≤ y.number := by
      rw [number_of_unsigned sign]
      exact Int.natCast_nonneg _
    have quotient := Int.tdiv_nonneg below nonneg
    have shrinks := Nat.div_le_self x.number.natAbs y.number.natAbs
    omega
  | true =>
    obtain ⟨least, greatest⟩ := min_of_signed sign
    by_cases minusOne : y.number = -1
    · have notLeast : x.number ≠ T.min := by
        intro minimum
        refine notMinimum ⟨sign, minimum, ?_⟩
        rw [← Value.of_number y, minusOne]
      rw [minusOne, Int.tdiv_neg, Int.tdiv_one]
      omega
    · by_cases one : y.number = 1
      · rw [one, Int.tdiv_one]
        exact ⟨below, above⟩
      · have halves : x.number.natAbs / y.number.natAbs ≤ x.number.natAbs / 2 :=
          Nat.div_le_div_left (by omega) (by decide)
        omega

theorem checkedDiv_checks {x y : Value T} (nonzero : y.number ≠ 0) :
    ∃ checked, checkedDiv x y = some checked ∧ Checks checked (x.number.tdiv y.number) := by
  unfold checkedDiv
  split
  next minimum =>
    obtain ⟨signed, least, minusOne⟩ := minimum
    have exact_ : x.number.tdiv y.number = -T.min := by
      rw [least, minusOne, number_minusOne signed, Int.tdiv_neg, Int.tdiv_one]
    have leaves : ¬T.Holds (x.number.tdiv y.number) := by
      rintro ⟨_, above⟩
      have bound : x.number.tdiv y.number ≤ T.max := above
      have sizes := min_of_signed signed
      omega
    exact ⟨_, rfl, iff_of_false nofun leaves, fun holds => (leaves holds).elim⟩
  next notMinimum =>
    have holds := tdiv_holds nonzero notMinimum
    exact ⟨_, rfl, iff_of_true rfl holds, Value.number_of⟩

theorem checkedDiv_zero {x y : Value T} (zero : y.number = 0) : checkedDiv x y = none := by
  unfold checkedDiv
  rw [if_neg, if_pos zero]
  rintro ⟨signed, _, minusOne⟩
  rw [minusOne, number_minusOne signed] at zero
  exact absurd zero (by decide)

theorem checkedNeg_checks (value : Value T) : Checks (checkedNeg value) (-value.number) := by
  obtain ⟨below, above⟩ : T.min ≤ value.number ∧ value.number ≤ T.max := value.holds
  have bounds : ∀ n, T.Holds n ↔ T.min ≤ n ∧ n ≤ T.max := fun n => Iff.rfl
  unfold checkedNeg
  cases sign : T.isSigned with
  | true =>
    obtain ⟨least, greatest⟩ := min_of_signed sign
    refine ⟨?_, fun holds => intOf_eq T.width_pos (neg_eq_ofInt T.isSigned value) holds⟩
    simp only [if_true]
    rw [valid_or_overflow, bounds]
    omega
  | false =>
    have nonneg : 0 ≤ value.number := by
      rw [number_of_unsigned sign]
      exact Int.natCast_nonneg _
    simp only [Bool.false_eq_true, if_false]
    have only : T.Holds (-value.number) ↔ value.number = 0 := by
      rw [bounds, IntegralType.min_of_unsigned sign]
      omega
    constructor
    · rw [only]
      split
      next nonzero => exact iff_of_false nofun nonzero
      next zero => exact iff_of_true rfl (not_not.mp zero)
    · intro holds
      have zero := only.mp holds
      have signedZero : (signedIntegerForSize T).Holds 0 :=
        ⟨(signedIntegerForSize T).min_nonpos, (signedIntegerForSize T).max_nonneg⟩
      have wide : (staticCast (signedIntegerForSize T) value).number = 0 := by
        rw [staticCast_number (by rwa [zero]), zero]
      have negated : Value.number (T := signedIntegerForSize T) (-(staticCast (signedIntegerForSize T) value)) = 0 := by
        refine intOf_eq (signedIntegerForSize T).width_pos ?_ signedZero
        rw [neg_eq_ofInt (signedIntegerForSize T).isSigned]
        exact congrArg _ (by rw [← Value.number, wide]; rfl)
      rw [zero, staticCast_number (by rw [negated]; rwa [zero] at holds), negated]
      rfl

/-- The checked operation of an operator, where the divisor is not zero. -/
theorem Operator.checked_checks (operator : Operator) {x y : Value T}
    (divides : operator = .div → y.number ≠ 0) :
    ∃ checked, operator.checked x y .valid = some checked ∧ Checks checked (operator.exact x.number y.number) := by
  cases operator with
  | add => exact ⟨_, rfl, checkedAdd_checks x y⟩
  | sub => exact ⟨_, rfl, checkedSub_checks x y⟩
  | mul => exact ⟨_, rfl, checkedMul_checks x y⟩
  | div => exact checkedDiv_checks (divides rfl)

theorem Operator.checked_div_zero {operator : Operator} (division : operator = .div) {x y : Value T}
    (zero : y.number = 0) : operator.checked x y .valid = none := by
  rw [division]
  exact checkedDiv_zero zero

end Libchrome.Base.Numerics
