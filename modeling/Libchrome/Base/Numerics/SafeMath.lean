import Libchrome.Library.FixedWidth

/-!
# Conversions between integral types

The range check that stands in front of every conversion of a `CheckedNumeric`. The types are those of 8
to 64 bits; what the templates choose from sizes and signs at compile time is computed here.
-/

namespace Libchrome.Base.Numerics

open Library

inductive IntegerSize where
  | one
  | two
  | four
  | eight
  deriving DecidableEq, Repr

/-- `IntegerForSizeAndSign`. -/
structure IntegralType where
  size : IntegerSize
  isSigned : Bool
  deriving DecidableEq, Repr

namespace IntegralType

def sizeof (T : IntegralType) : Nat :=
  match T.size with
  | .one => 1
  | .two => 2
  | .four => 4
  | .eight => 8

def width (T : IntegralType) : Nat := 8 * T.sizeof

/-- `numeric_limits<T>::min()`. -/
def min (T : IntegralType) : Int := lowest T.isSigned T.width

/-- `numeric_limits<T>::max()`. -/
def max (T : IntegralType) : Int := highest T.isSigned T.width

/-- The integers of a type. -/
def Holds (T : IntegralType) (n : Int) : Prop := Fits T.isSigned T.width n

instance (T : IntegralType) (n : Int) : Decidable (T.Holds n) :=
  inferInstanceAs (Decidable (Fits _ _ _))

def int : IntegralType := ⟨.four, true⟩

/-- `MaxExponent`: one more than the number of bits that are not the sign. -/
def maxExponent (T : IntegralType) : Nat := T.sizeof * 8 + 1 - T.isSigned.toNat

end IntegralType

/-- A value of a type, as its bits. -/
abbrev Value (T : IntegralType) : Type := BitVec T.width

variable {T Src Dst : IntegralType}

/-- The integer that a value is. -/
def Value.number (value : Value T) : Int := intOf T.isSigned value

def Value.of (T : IntegralType) (n : Int) : Value T := BitVec.ofInt T.width n

/-- `static_cast` between integral types: modulo the width of the new one. -/
def staticCast (Dst : IntegralType) (value : Value Src) : Value Dst := Value.of Dst value.number

inductive NumericRangeRepresentation where
  | notContained
  | contained
  deriving DecidableEq, Repr

/-- `StaticDstRangeRelationToSrcRange`, by the signs of its specialisations. -/
def staticDstRangeRelationToSrcRange (Dst Src : IntegralType) : NumericRangeRepresentation :=
  match Dst.isSigned, Src.isSigned with
  | true, true | false, false =>
    if Dst.maxExponent ≥ Src.maxExponent then .contained else .notContained
  | true, false => if Dst.maxExponent > Src.maxExponent then .contained else .notContained
  | false, true => .notContained

inductive RangeConstraint where
  | valid
  | underflow
  | overflow
  | invalid
  deriving DecidableEq, Repr

def RangeConstraint.toNat : RangeConstraint → Nat
  | .valid => 0
  | .underflow => 1
  | .overflow => 2
  | .invalid => 3

/-- `GetRangeConstraint`, from an `int` that is a union of constraints. -/
def getRangeConstraint : Nat → RangeConstraint
  | 0 => .valid
  | 1 => .underflow
  | 2 => .overflow
  | _ => .invalid

/-- `GetRangeConstraint(validity | other)`. -/
def RangeConstraint.union (validity other : RangeConstraint) : RangeConstraint :=
  getRangeConstraint (validity.toNat ||| other.toNat)

/-- `GetRangeConstraint` of an upper and a lower bound check. -/
def getBoundsConstraint (isInUpperBound isInLowerBound : Bool) : RangeConstraint :=
  getRangeConstraint ((if isInUpperBound then 0 else RangeConstraint.overflow.toNat) |||
    if isInLowerBound then 0 else RangeConstraint.underflow.toNat)

/-- `NarrowingRange<Dst, Src>::max()`; nothing is shifted off for integers. -/
def narrowingRangeMax (Dst : IntegralType) : Value Dst := Value.of Dst Dst.max

/-- `NarrowingRange<Dst, Src>::min()`. -/
def narrowingRangeMin (Dst : IntegralType) : Value Dst := Value.of Dst Dst.min

/-- `DstRangeRelationToSrcRange`, by the specialisations of its `Impl`. -/
def dstRangeRelationToSrcRange (Dst : IntegralType) (value : Value Src) : RangeConstraint :=
  if staticDstRangeRelationToSrcRange Dst Src = .contained then .valid
  else match Dst.isSigned, Src.isSigned with
    | true, true => getBoundsConstraint (value.number ≤ (narrowingRangeMax Dst).number)
        (value.number ≥ (narrowingRangeMin Dst).number)
    | false, false => getBoundsConstraint (value.number ≤ (narrowingRangeMax Dst).number) true
    | true, false =>
      if Dst.sizeof > Src.sizeof then .valid
      else getBoundsConstraint (value.number ≤ (staticCast Src (narrowingRangeMax Dst)).number) true
    | false, true =>
      if Dst.maxExponent ≥ Src.maxExponent then getBoundsConstraint true (value.number ≥ 0)
      else getBoundsConstraint (value.number ≤ (staticCast Src (narrowingRangeMax Dst)).number)
        (value.number ≥ 0)

theorem RangeConstraint.union_eq_valid {validity other : RangeConstraint} :
    validity.union other = .valid ↔ validity = .valid ∧ other = .valid := by
  cases validity <;> cases other <;> decide

theorem getBoundsConstraint_eq_valid {upper lower : Bool} :
    getBoundsConstraint upper lower = .valid ↔ upper = true ∧ lower = true := by
  cases upper <;> cases lower <;> decide

theorem IntegralType.width_pos (T : IntegralType) : 0 < T.width := by
  rcases T with ⟨_ | _ | _ | _, _ | _⟩ <;> decide

theorem IntegralType.holds_max (T : IntegralType) : T.Holds T.max := by
  rcases T with ⟨_ | _ | _ | _, _ | _⟩ <;> decide

theorem IntegralType.holds_min (T : IntegralType) : T.Holds T.min := by
  rcases T with ⟨_ | _ | _ | _, _ | _⟩ <;> decide

theorem Value.holds (value : Value T) : T.Holds value.number := fits_intOf value

theorem Value.number_of {n : Int} (holds : T.Holds n) : (Value.of T n).number = n :=
  intOf_ofInt T.width_pos holds

theorem Value.of_number (value : Value T) : Value.of T value.number = value := ofInt_intOf value

theorem staticCast_number {value : Value Src} (holds : Dst.Holds value.number) :
    (staticCast Dst value).number = value.number :=
  Value.number_of holds

/-- The integers of a type that is contained in another one. -/
theorem IntegralType.Holds.mono {n : Int} (holds : Src.Holds n)
    (contained : staticDstRangeRelationToSrcRange Dst Src = .contained) : Dst.Holds n := by
  have bounds : Dst.min ≤ Src.min ∧ Src.max ≤ Dst.max := by
    revert contained
    rcases Dst with ⟨_ | _ | _ | _, _ | _⟩ <;> rcases Src with ⟨_ | _ | _ | _, _ | _⟩ <;> decide
  obtain ⟨below, above⟩ := bounds
  exact ⟨Int.le_trans below holds.1, Int.le_trans holds.2 above⟩

theorem IntegralType.min_nonpos (T : IntegralType) : T.min ≤ 0 := by
  rcases T with ⟨_ | _ | _ | _, _ | _⟩ <;> decide

theorem IntegralType.max_nonneg (T : IntegralType) : 0 ≤ T.max := by
  rcases T with ⟨_ | _ | _ | _, _ | _⟩ <;> decide

theorem IntegralType.min_of_unsigned (unsigned : T.isSigned = false) : T.min = 0 := by
  simp only [IntegralType.min, lowest, unsigned, Bool.false_eq_true, if_false]

theorem narrowingRangeMax_number (Dst : IntegralType) : (narrowingRangeMax Dst).number = Dst.max :=
  Value.number_of Dst.holds_max

theorem narrowingRangeMin_number (Dst : IntegralType) : (narrowingRangeMin Dst).number = Dst.min :=
  Value.number_of Dst.holds_min

theorem holds_max_of_signed (signed : Dst.isSigned = true) (unsigned : Src.isSigned = false)
    (narrow : staticDstRangeRelationToSrcRange Dst Src ≠ .contained) :
    ¬Dst.sizeof > Src.sizeof ∧ Src.Holds Dst.max := by
  revert signed unsigned narrow
  rcases Dst with ⟨_ | _ | _ | _, _ | _⟩ <;> rcases Src with ⟨_ | _ | _ | _, _ | _⟩ <;> decide

theorem max_of_unsigned (unsigned : Dst.isSigned = false) (signed : Src.isSigned = true) :
    if Dst.maxExponent ≥ Src.maxExponent then Src.max ≤ Dst.max else Src.Holds Dst.max := by
  revert signed unsigned
  rcases Dst with ⟨_ | _ | _ | _, _ | _⟩ <;> rcases Src with ⟨_ | _ | _ | _, _ | _⟩ <;> decide

/-- The check admits the integers of the destination. -/
theorem dstRangeRelationToSrcRange_eq_valid (Dst : IntegralType) (value : Value Src) :
    dstRangeRelationToSrcRange Dst value = .valid ↔ Dst.Holds value.number := by
  obtain ⟨below, above⟩ : Src.min ≤ value.number ∧ value.number ≤ Src.max := value.holds
  have holds : Dst.Holds value.number ↔ value.number ≤ Dst.max ∧ Dst.min ≤ value.number := and_comm
  unfold dstRangeRelationToSrcRange
  split
  next contained => exact ⟨fun _ => value.holds.mono contained, fun _ => rfl⟩
  next narrow =>
    rw [holds]
    split
    next =>
      rw [getBoundsConstraint_eq_valid, narrowingRangeMax_number, narrowingRangeMin_number,
        decide_eq_true_eq, decide_eq_true_eq]
    next unsigned srcUnsigned =>
      rw [getBoundsConstraint_eq_valid, narrowingRangeMax_number, decide_eq_true_eq]
      rw [IntegralType.min_of_unsigned srcUnsigned] at below
      rw [IntegralType.min_of_unsigned unsigned]
      exact and_congr_right fun _ => iff_of_true rfl below
    next signed srcUnsigned =>
      obtain ⟨notLarger, fits⟩ := holds_max_of_signed signed srcUnsigned narrow
      have cast : (staticCast Src (narrowingRangeMax Dst)).number = Dst.max := by
        rw [staticCast_number (by rwa [narrowingRangeMax_number]), narrowingRangeMax_number]
      rw [if_neg notLarger, getBoundsConstraint_eq_valid, cast, decide_eq_true_eq]
      rw [IntegralType.min_of_unsigned srcUnsigned] at below
      exact and_congr_right fun _ => iff_of_true rfl (Int.le_trans Dst.min_nonpos below)
    next unsigned srcSigned =>
      have maximum := max_of_unsigned unsigned srcSigned
      rw [IntegralType.min_of_unsigned unsigned]
      split
      next wide =>
        rw [if_pos wide] at maximum
        rw [getBoundsConstraint_eq_valid, decide_eq_true_eq]
        exact and_congr_left fun _ => iff_of_true rfl (Int.le_trans above maximum)
      next narrower =>
        rw [if_neg narrower] at maximum
        have cast : (staticCast Src (narrowingRangeMax Dst)).number = Dst.max := by
          rw [staticCast_number (by rwa [narrowingRangeMax_number]), narrowingRangeMax_number]
        rw [getBoundsConstraint_eq_valid, cast, decide_eq_true_eq, decide_eq_true_eq]

end Libchrome.Base.Numerics

/-!
# `CheckedNumeric`

The checked operations on one type, and the operators of `CheckedNumeric` with their promotions. A
division by a stored zero has no result. Where a signed product or negation overflows, it wraps around, as
the comments of the source take it to.
-/

namespace Libchrome.Base.Numerics

open Library

variable {T Src : IntegralType}

/-- `HasSignBit`: the bit at `PositionOfSignBit`, shifted out of the unsigned value. -/
def hasSignBit (x : Value T) : Bool := x >>> (8 * T.sizeof - 1) ≠ 0

/-- `BinaryComplement`. -/
def binaryComplement (x : Value T) : Value T := ~~~x

/-- What a checked operation returns, with the constraint that it leaves in `*validity`. -/
structure Checked (T : IntegralType) where
  result : Value T
  validity : RangeConstraint
  deriving DecidableEq, Repr

/-- `CheckedAdd`. -/
def checkedAdd (x y : Value T) : Checked T :=
  let uresult := x + y
  ⟨uresult,
    if T.isSigned then
      if hasSignBit (binaryComplement ((uresult ^^^ x) &&& (uresult ^^^ y))) then .valid
      else if hasSignBit uresult then .overflow else .underflow
    else if (binaryComplement x).number ≥ y.number then .valid else .overflow⟩

/-- `CheckedSub`. -/
def checkedSub (x y : Value T) : Checked T :=
  let uresult := x - y
  ⟨uresult,
    if T.isSigned then
      if hasSignBit (binaryComplement ((uresult ^^^ x) &&& (x ^^^ y))) then .valid
      else if hasSignBit uresult then .overflow else .underflow
    else if x.number ≥ y.number then .valid else .underflow⟩

/-- `TwiceWiderInteger`; there is none for the widest types. -/
def twiceWiderInteger (T : IntegralType) : IntegralType :=
  { T with size := match T.size with
    | .one => .two
    | .two => .four
    | .four | .eight => .eight }

/-- `CheckedMul`, by its three overloads: in a type twice as wide if there is one, else by divisions
of the limits. -/
def checkedMul (x y : Value T) (validity : RangeConstraint) : Checked T :=
  if T.sizeof * 2 ≤ 8 then
    let tmp : Value (twiceWiderInteger T) :=
      staticCast (twiceWiderInteger T) x * staticCast (twiceWiderInteger T) y
    ⟨staticCast T tmp, dstRangeRelationToSrcRange T tmp⟩
  else if T.isSigned then
    if x.number = 0 ∨ y.number = 0 then ⟨Value.of T 0, validity⟩
    else if x.number > 0 then
      if y.number > 0 then ⟨x * y, if x.number ≤ T.max.tdiv y.number then .valid else .overflow⟩
      else ⟨x * y, if y.number ≥ T.min.tdiv x.number then .valid else .underflow⟩
    else
      if y.number > 0 then ⟨x * y, if x.number ≥ T.min.tdiv y.number then .valid else .underflow⟩
      else ⟨x * y, if y.number ≥ T.max.tdiv x.number then .valid else .overflow⟩
  else ⟨x * y, if y.number = 0 ∨ x.number ≤ T.max.tdiv y.number then .valid else .overflow⟩

/-- `CheckedDiv`. -/
def checkedDiv (x y : Value T) : Option (Checked T) :=
  if T.isSigned ∧ x.number = T.min ∧ y = Value.of T (-1) then some ⟨Value.of T T.min, .overflow⟩
  else if y.number = 0 then none
  else some ⟨Value.of T (x.number.tdiv y.number), .valid⟩

/-- `SignedIntegerForSize`. -/
def signedIntegerForSize (T : IntegralType) : IntegralType := { T with isSigned := true }

/-- `CheckedNeg`, by its overloads for signed and unsigned types. -/
def checkedNeg (value : Value T) : Checked T :=
  if T.isSigned then ⟨-value, if value.number ≠ T.min then .valid else .overflow⟩
  else
    let signed : Value (signedIntegerForSize T) := -(staticCast (signedIntegerForSize T) value)
    ⟨staticCast T signed, if value.number ≠ 0 then .underflow else .valid⟩

/-- The operators that the macro `BASE_NUMERIC_ARITHMETIC_OPERATORS` is expanded for, but for `%`. -/
inductive Operator where
  | add
  | sub
  | mul
  | div
  deriving DecidableEq, Repr

/-- The checked operation `Checked##NAME`. -/
def Operator.checked (operator : Operator) (x y : Value T) (validity : RangeConstraint) : Option (Checked T) :=
  match operator with
  | .add => some (checkedAdd x y)
  | .sub => some (checkedSub x y)
  | .mul => some (checkedMul x y validity)
  | .div => checkedDiv x y

/-- The result of an operator among all integers, with the quotient truncated toward zero. -/
def Operator.exact : Operator → Int → Int → Int
  | .add, x, y => x + y
  | .sub, x, y => x - y
  | .mul, x, y => x * y
  | .div, x, y => x.tdiv y

/-- The built-in operator `OP` on values that the compiler promotes to the type `P`. -/
def Operator.builtIn (operator : Operator) (P : IntegralType) (x y : Int) : Option (Value P) :=
  if operator = .div ∧ y = 0 then none else some (Value.of P (operator.exact x y))

/-- `ArithmeticPromotion`. -/
def arithmeticPromotion (Lhs Rhs : IntegralType) : IntegralType :=
  if Lhs.maxExponent > Rhs.maxExponent then
    if Lhs.maxExponent > IntegralType.int.maxExponent then Lhs else .int
  else if Rhs.maxExponent > IntegralType.int.maxExponent then Rhs else .int

/-- `IsIntegerArithmeticSafe`, whose last range comparison is the wrong way round. -/
def isIntegerArithmeticSafe (T Lhs Rhs : IntegralType) : Bool :=
  staticDstRangeRelationToSrcRange T Lhs = .contained && T.sizeof ≥ 2 * Lhs.sizeof &&
    staticDstRangeRelationToSrcRange T Rhs ≠ .contained && T.sizeof ≥ 2 * Rhs.sizeof

/-- A `CheckedNumeric` with its `CheckedNumericState`. -/
structure CheckedNumeric (T : IntegralType) where
  value : Value T
  validity : RangeConstraint
  deriving DecidableEq, Repr

namespace CheckedNumeric

def isValid (c : CheckedNumeric T) : Bool := c.validity = .valid

/-- The integer that a `CheckedNumeric` stores. -/
def number (c : CheckedNumeric T) : Int := c.value.number

/-- `CheckedNumeric(Src value)`. -/
def ofValue (T : IntegralType) (value : Value Src) : CheckedNumeric T :=
  ⟨staticCast T value, dstRangeRelationToSrcRange T value⟩

/-- `CheckedNumeric(Src value, RangeConstraint validity)`. -/
def ofState (T : IntegralType) (value : Value Src) (validity : RangeConstraint) : CheckedNumeric T :=
  ⟨staticCast T value, validity.union (dstRangeRelationToSrcRange T value)⟩

/-- The conversion from another `CheckedNumeric`, and `cast`. -/
def cast (T : IntegralType) (c : CheckedNumeric Src) : CheckedNumeric T :=
  ofState T c.value c.validity

/-- The binary operator for values of the same type. -/
def sameType (operator : Operator) (lhs rhs : CheckedNumeric T) :
    Option (CheckedNumeric (arithmeticPromotion T T)) :=
  let Promotion := arithmeticPromotion T T
  if isIntegerArithmeticSafe Promotion T T then
    (operator.builtIn Promotion lhs.number rhs.number).map fun value =>
      ofState Promotion value (rhs.validity.union lhs.validity)
  else
    (operator.checked (staticCast Promotion lhs.value) (staticCast Promotion rhs.value) .valid).map
      fun checked =>
        -- the result is cast to the type of the operands
        ofState Promotion (staticCast T checked.result) ((checked.validity.union lhs.validity).union rhs.validity)

/-- The binary operator for values of different types. -/
def differentTypes (operator : Operator) (lhs : CheckedNumeric Src) (rhs : CheckedNumeric T) :
    Option (CheckedNumeric (arithmeticPromotion T Src)) :=
  let Promotion := arithmeticPromotion T Src
  if isIntegerArithmeticSafe Promotion T Src then
    (operator.builtIn Promotion lhs.number rhs.number).map fun value =>
      ofState Promotion value (rhs.validity.union lhs.validity)
  else
    (sameType operator (cast Promotion lhs) (cast Promotion rhs)).map (cast Promotion)

/-- The overload for a number on the right. -/
def numberRight (operator : Operator) (lhs : CheckedNumeric T) (rhs : Value Src) :
    Option (CheckedNumeric (arithmeticPromotion T Src)) :=
  let Promotion := arithmeticPromotion T Src
  if isIntegerArithmeticSafe Promotion T Src then
    (operator.builtIn Promotion lhs.number rhs.number).map fun value => ofState Promotion value lhs.validity
  else
    (sameType operator (cast Promotion lhs) (ofValue Promotion rhs)).map (cast Promotion)

/-- The overload for a number on the left. -/
def numberLeft (operator : Operator) (lhs : Value Src) (rhs : CheckedNumeric T) :
    Option (CheckedNumeric (arithmeticPromotion T Src)) :=
  let Promotion := arithmeticPromotion T Src
  if isIntegerArithmeticSafe Promotion T Src then
    (operator.builtIn Promotion lhs.number rhs.number).map fun value => ofState Promotion value rhs.validity
  else
    (sameType operator (ofValue Promotion lhs) (cast Promotion rhs)).map (cast Promotion)

/-- The binary operator that the types of its operands select. -/
def binary (operator : Operator) {S T : IntegralType} (lhs : CheckedNumeric S) (rhs : CheckedNumeric T) :
    Option (CheckedNumeric (arithmeticPromotion T S)) :=
  match decEq S T, lhs with
  | .isTrue rfl, lhs => sameType operator lhs rhs
  | .isFalse _, lhs => differentTypes operator lhs rhs

/-- A compound assignment, with a `CheckedNumeric` on the right. -/
def assign (operator : Operator) (lhs : CheckedNumeric T) (rhs : CheckedNumeric Src) :
    Option (CheckedNumeric T) :=
  (binary operator (cast T lhs) (cast Src rhs)).map (cast T)

/-- The unary `operator-`. -/
def neg (c : CheckedNumeric T) : CheckedNumeric T :=
  let checked := checkedNeg c.value
  ofState T checked.result (c.validity.union checked.validity)

end CheckedNumeric

end Libchrome.Base.Numerics
