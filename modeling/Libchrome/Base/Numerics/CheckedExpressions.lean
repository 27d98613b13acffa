import Libchrome.Base.Numerics.CheckedOperations

/-!
# What the operators of `CheckedNumeric` compute

The operator for values of one type casts its result back to that type, so it is exact only where that
type holds the result. All other operators are exact wherever they are valid.
-/

namespace Libchrome.Base.Numerics

open CheckedNumeric hiding cast neg

variable {S T Src : IntegralType}

theorem arithmeticPromotion_contains (T : IntegralType) :
    staticDstRangeRelationToSrcRange (arithmeticPromotion T T) T = .contained := by
  rcases T with ⟨_ | _ | _ | _, _ | _⟩ <;> decide

theorem arithmeticPromotion_promoted (S T : IntegralType) :
    arithmeticPromotion (arithmeticPromotion S T) (arithmeticPromotion S T) = arithmeticPromotion S T := by
  rcases S with ⟨_ | _ | _ | _, _ | _⟩ <;> rcases T with ⟨_ | _ | _ | _, _ | _⟩ <;> decide

/-- No types take the way without checks: it asks for a type that does not contain the right operand. -/
theorem not_isIntegerArithmeticSafe (S T : IntegralType) :
    isIntegerArithmeticSafe (arithmeticPromotion S T) S T = false := by
  rcases S with ⟨_ | _ | _ | _, _ | _⟩ <;> rcases T with ⟨_ | _ | _ | _, _ | _⟩ <;> decide

theorem isValid_iff {c : CheckedNumeric T} : c.isValid = true ↔ c.validity = .valid := decide_eq_true_iff

theorem ofValue_isValid (T : IntegralType) (value : Value Src) :
    (ofValue T value).isValid = true ↔ T.Holds value.number := by
  rw [isValid_iff]
  exact dstRangeRelationToSrcRange_eq_valid T value

theorem ofState_isValid (T : IntegralType) (value : Value Src) (validity : RangeConstraint) :
    (ofState T value validity).isValid = true ↔ validity = .valid ∧ T.Holds value.number := by
  rw [isValid_iff, ofState, RangeConstraint.union_eq_valid, dstRangeRelationToSrcRange_eq_valid]

theorem ofState_number {value : Value Src} (validity : RangeConstraint) (holds : T.Holds value.number) :
    (ofState T value validity).number = value.number :=
  staticCast_number holds

theorem cast_isValid (T : IntegralType) (c : CheckedNumeric S) :
    (CheckedNumeric.cast T c).isValid = true ↔ c.isValid = true ∧ T.Holds c.number := by
  rw [CheckedNumeric.cast, ofState_isValid, isValid_iff]
  rfl

theorem cast_self (c : CheckedNumeric T) : CheckedNumeric.cast T c = c := by
  have contained : dstRangeRelationToSrcRange T c.value = .valid :=
    (dstRangeRelationToSrcRange_eq_valid T c.value).mpr c.value.holds
  have kept : ∀ validity : RangeConstraint, validity.union .valid = validity := by
    intro validity
    cases validity <;> rfl
  rw [CheckedNumeric.cast, ofState, contained, kept, staticCast, Value.of_number]

/-- The operator for one type computes in the promoted type, and casts the result to the type. -/
theorem sameType_spec (operator : Operator) (lhs rhs : CheckedNumeric T) :
    (operator = .div ∧ rhs.number = 0 ∧ sameType operator lhs rhs = none) ∨
      ∃ c, sameType operator lhs rhs = some c ∧
        (c.isValid = true ↔ lhs.isValid = true ∧ rhs.isValid = true ∧
          (arithmeticPromotion T T).Holds (operator.exact lhs.number rhs.number)) ∧
        ((arithmeticPromotion T T).Holds (operator.exact lhs.number rhs.number) →
          c.number = (Value.of T (operator.exact lhs.number rhs.number)).number) := by
  have contains := arithmeticPromotion_contains T
  have left : (staticCast (arithmeticPromotion T T) lhs.value).number = lhs.number :=
    staticCast_number (lhs.value.holds.mono contains)
  have right : (staticCast (arithmeticPromotion T T) rhs.value).number = rhs.number :=
    staticCast_number (rhs.value.holds.mono contains)
  unfold sameType
  simp only [not_isIntegerArithmeticSafe, Bool.false_eq_true, if_false]
  by_cases divides : operator = .div ∧ rhs.number = 0
  · refine .inl ⟨divides.1, divides.2, ?_⟩
    rw [Operator.checked_div_zero divides.1 (right.trans divides.2)]
    rfl
  · obtain ⟨checked, computed, checks⟩ := operator.checked_checks
      (x := staticCast (arithmeticPromotion T T) lhs.value)
      (y := staticCast (arithmeticPromotion T T) rhs.value)
      (fun division zero => divides ⟨division, right ▸ zero⟩)
    rw [left, right] at checks
    rw [computed]
    refine .inr ⟨_, rfl, ?_, fun holds => ?_⟩
    · rw [ofState_isValid, RangeConstraint.union_eq_valid, RangeConstraint.union_eq_valid, checks.valid_iff,
        isValid_iff, isValid_iff]
      have contained := (staticCast T checked.result).holds.mono contains
      constructor
      · rintro ⟨⟨⟨holds, left⟩, right⟩, _⟩
        exact ⟨left, right, holds⟩
      · rintro ⟨left, right, holds⟩
        exact ⟨⟨⟨holds, left⟩, right⟩, contained⟩
    · dsimp only
      rw [ofState_number _ ((staticCast T checked.result).holds.mono contains), staticCast, checks.number holds]

/-- A computation has a valid result in the cases `possible`, and then its result is `n`. -/
structure Computes (result : Option (CheckedNumeric T)) (possible : Prop) (n : Int) : Prop where
  yields : possible → ∃ c, result = some c ∧ c.isValid = true ∧ c.number = n
  only : ∀ c, result = some c → c.isValid = true → possible

section Computes

variable {a : Option (CheckedNumeric S)} {b : Option (CheckedNumeric T)} {p q : Prop} {x y : Int}

theorem Computes.number (computes : Computes a p x) {c : CheckedNumeric S} (result : a = some c)
    (valid : c.isValid = true) : c.number = x := by
  obtain ⟨c', result', _, number⟩ := computes.yields (computes.only c result valid)
  rw [result] at result'
  cases result'
  exact number

theorem Computes.congr (computes : Computes a p x) (same : p ↔ q) : Computes a q x :=
  ⟨fun possible => computes.yields (same.mpr possible), fun c result valid => same.mp (computes.only c result valid)⟩

theorem computes_ofValue (T : IntegralType) (value : Value Src) :
    Computes (some (ofValue T value)) (T.Holds value.number) value.number where
  yields holds := ⟨_, rfl, (ofValue_isValid T value).mpr holds, staticCast_number holds⟩
  only := by
    rintro _ ⟨⟩ valid
    exact (ofValue_isValid T value).mp valid

theorem Computes.cast (computes : Computes a p x) (T : IntegralType) :
    Computes (a.map (CheckedNumeric.cast T)) (p ∧ T.Holds x) x where
  yields := by
    rintro ⟨possible, holds⟩
    obtain ⟨c, result, valid, number⟩ := computes.yields possible
    have fits : T.Holds c.number := by rwa [number]
    refine ⟨CheckedNumeric.cast T c, by rw [result]; rfl, (cast_isValid T c).mpr ⟨valid, fits⟩, ?_⟩
    rw [← number]
    exact ofState_number _ fits
  only := by
    intro c result valid
    obtain ⟨c', result', rfl⟩ := Option.map_eq_some_iff.mp result
    obtain ⟨validBefore, holds⟩ := (cast_isValid T c').mp valid
    exact ⟨computes.only c' result' validBefore, computes.number result' validBefore ▸ holds⟩

theorem Computes.neg (computes : Computes b q y) : Computes (b.map CheckedNumeric.neg) (q ∧ T.Holds (-y)) (-y) where
  yields := by
    rintro ⟨possible, holds⟩
    obtain ⟨c, result, valid, rfl⟩ := computes.yields possible
    have checks := checkedNeg_checks c.value
    have fits : T.Holds (checkedNeg c.value).result.number := (checkedNeg c.value).result.holds
    refine ⟨CheckedNumeric.neg c, by rw [result]; rfl, ?_, ?_⟩
    · exact (ofState_isValid T _ _).mpr
        ⟨RangeConstraint.union_eq_valid.mpr ⟨isValid_iff.mp valid, checks.valid_iff.mpr holds⟩, fits⟩
    · exact (ofState_number _ fits).trans (checks.number holds)
  only := by
    intro c result valid
    obtain ⟨c', result', rfl⟩ := Option.map_eq_some_iff.mp result
    obtain ⟨validity, _⟩ := (ofState_isValid T _ _).mp valid
    obtain ⟨before, negated⟩ := RangeConstraint.union_eq_valid.mp validity
    have validBefore := isValid_iff.mpr before
    refine ⟨computes.only c' result' validBefore, ?_⟩
    rw [← computes.number result' validBefore]
    exact (checkedNeg_checks c'.value).valid_iff.mp negated

/-- The operator for one type, where that type holds each result that the promoted type holds. -/
theorem Computes.sameType {a : Option (CheckedNumeric T)} (left : Computes a p x) (right : Computes b q y)
    {operator : Operator} (divides : operator = .div → y ≠ 0)
    (kept : p → q → (arithmeticPromotion T T).Holds (operator.exact x y) → T.Holds (operator.exact x y)) :
    Computes (a.bind fun lhs => b.bind fun rhs => sameType operator lhs rhs)
      (p ∧ q ∧ (arithmeticPromotion T T).Holds (operator.exact x y)) (operator.exact x y) where
  yields := by
    rintro ⟨possible, possibleRight, holds⟩
    obtain ⟨lhs, result, valid, number⟩ := left.yields possible
    obtain ⟨rhs, resultRight, validRight, numberRight⟩ := right.yields possibleRight
    have fits := kept possible possibleRight holds
    rw [result, resultRight]
    rw [← number, ← numberRight] at holds fits ⊢
    rcases sameType_spec operator lhs rhs with ⟨division, zero, _⟩ | ⟨c, computed, isValid, returned⟩
    · exact (divides division (numberRight ▸ zero)).elim
    · exact ⟨c, computed, isValid.mpr ⟨valid, validRight, holds⟩, (returned holds).trans (Value.number_of fits)⟩
  only := by
    intro c result valid
    obtain ⟨lhs, resultLeft, result⟩ := Option.bind_eq_some_iff.mp result
    obtain ⟨rhs, resultRight, result⟩ := Option.bind_eq_some_iff.mp result
    rcases sameType_spec operator lhs rhs with ⟨_, _, none_⟩ | ⟨c', computed, isValid, _⟩
    · rw [none_] at result
      cases result
    · rw [computed] at result
      cases result
      obtain ⟨validLeft, validRight, holds⟩ := isValid.mp valid
      rw [left.number resultLeft validLeft, right.number resultRight validRight] at holds
      exact ⟨left.only lhs resultLeft validLeft, right.only rhs resultRight validRight, holds⟩

/-- The operator on operands of a promoted type, with a result of that type. -/
theorem Computes.promoted {P : IntegralType} (promoted : arithmeticPromotion P P = P)
    {a b : Option (CheckedNumeric P)} (left : Computes a p x) (right : Computes b q y) {operator : Operator}
    (divides : operator = .div → y ≠ 0) :
    Computes ((a.bind fun lhs => b.bind fun rhs => CheckedNumeric.sameType operator lhs rhs).map
      (CheckedNumeric.cast P)) (p ∧ q ∧ P.Holds (operator.exact x y)) (operator.exact x y) := by
  have same : (arithmeticPromotion P P).Holds (operator.exact x y) ↔ P.Holds (operator.exact x y) := by
    rw [promoted]
  refine ((left.sameType right divides fun _ _ => same.mp).cast P).congr ?_
  rw [same]
  constructor
  · rintro ⟨possible, holds⟩
    exact possible
  · rintro ⟨possible, possibleRight, holds⟩
    exact ⟨⟨possible, possibleRight, holds⟩, holds⟩

/-- What the binary operators ask of their operands and of their exact result. -/
def Promotes (P : IntegralType) (operator : Operator) (x y : Int) : Prop :=
  P.Holds x ∧ P.Holds y ∧ P.Holds (operator.exact x y)

theorem promotes_congr {P : IntegralType} {operator : Operator} :
    (p ∧ P.Holds x) ∧ (q ∧ P.Holds y) ∧ P.Holds (operator.exact x y) ↔ p ∧ q ∧ Promotes P operator x y := by
  constructor
  · rintro ⟨⟨possible, left⟩, ⟨possibleRight, right⟩, holds⟩
    exact ⟨possible, possibleRight, left, right, holds⟩
  · rintro ⟨possible, possibleRight, left, right, holds⟩
    exact ⟨⟨possible, left⟩, ⟨possibleRight, right⟩, holds⟩

theorem Computes.differentTypes (left : Computes a p x) (right : Computes b q y) {operator : Operator}
    (divides : operator = .div → y ≠ 0) :
    Computes (a.bind fun lhs => b.bind fun rhs => CheckedNumeric.differentTypes operator lhs rhs)
      (p ∧ q ∧ Promotes (arithmeticPromotion T S) operator x y) (operator.exact x y) := by
  have computes := Computes.promoted (arithmeticPromotion_promoted T S) (left.cast (arithmeticPromotion T S))
    (right.cast (arithmeticPromotion T S)) divides
  have same : (((a.map (CheckedNumeric.cast (arithmeticPromotion T S))).bind fun lhs =>
      (b.map (CheckedNumeric.cast (arithmeticPromotion T S))).bind fun rhs =>
        CheckedNumeric.sameType operator lhs rhs).map (CheckedNumeric.cast (arithmeticPromotion T S))) =
      a.bind fun lhs => b.bind fun rhs => CheckedNumeric.differentTypes operator lhs rhs := by
    unfold CheckedNumeric.differentTypes
    simp only [not_isIntegerArithmeticSafe, Bool.false_eq_true, if_false]
    cases a <;> cases b <;> rfl
  rw [same] at computes
  exact computes.congr promotes_congr

theorem Computes.numberRight (left : Computes a p x) (value : Value T) {operator : Operator}
    (divides : operator = .div → value.number ≠ 0) :
    Computes (a.bind fun lhs => CheckedNumeric.numberRight operator lhs value)
      (p ∧ Promotes (arithmeticPromotion S T) operator x value.number) (operator.exact x value.number) := by
  have computes := Computes.promoted (arithmeticPromotion_promoted S T) (left.cast (arithmeticPromotion S T))
    (computes_ofValue (arithmeticPromotion S T) value) divides
  have same : (((a.map (CheckedNumeric.cast (arithmeticPromotion S T))).bind fun lhs =>
      (some (ofValue (arithmeticPromotion S T) value)).bind fun rhs =>
        CheckedNumeric.sameType operator lhs rhs).map (CheckedNumeric.cast (arithmeticPromotion S T))) =
      a.bind fun lhs => CheckedNumeric.numberRight operator lhs value := by
    unfold CheckedNumeric.numberRight
    simp only [not_isIntegerArithmeticSafe, Bool.false_eq_true, if_false]
    cases a <;> rfl
  rw [same] at computes
  exact computes.congr (by rw [and_assoc]; rfl)

theorem Computes.numberLeft (value : Value S) (right : Computes b q y) {operator : Operator}
    (divides : operator = .div → y ≠ 0) :
    Computes (b.bind fun rhs => CheckedNumeric.numberLeft operator value rhs)
      (q ∧ Promotes (arithmeticPromotion T S) operator value.number y) (operator.exact value.number y) := by
  have computes := Computes.promoted (arithmeticPromotion_promoted T S)
    (computes_ofValue (arithmeticPromotion T S) value) (right.cast (arithmeticPromotion T S)) divides
  have same : (((some (ofValue (arithmeticPromotion T S) value)).bind fun lhs =>
      (b.map (CheckedNumeric.cast (arithmeticPromotion T S))).bind fun rhs =>
        CheckedNumeric.sameType operator lhs rhs).map (CheckedNumeric.cast (arithmeticPromotion T S))) =
      b.bind fun rhs => CheckedNumeric.numberLeft operator value rhs := by
    unfold CheckedNumeric.numberLeft
    simp only [not_isIntegerArithmeticSafe, Bool.false_eq_true, if_false]
    cases b <;> rfl
  rw [same] at computes
  refine computes.congr ⟨?_, ?_⟩
  · rintro ⟨left, ⟨possible, right⟩, holds⟩
    exact ⟨possible, left, right, holds⟩
  · rintro ⟨possible, left, right, holds⟩
    exact ⟨left, ⟨possible, right⟩, holds⟩

end Computes

end Libchrome.Base.Numerics

/-!
## Expressions of `CheckedNumeric` values

A valid result is the exact one, unless an operator has wrapped around: `IsIntegerArithmeticSafe` never
holds, so the operator for values of one type of 8 or 16 bits computes in `int` and then casts the result
to the operands' type, past every check.
-/

namespace Libchrome.Base.Numerics

open CheckedNumeric hiding cast neg

/-- The expressions over `CheckedNumeric`, by the type of their result. A variable that is assigned to
stands for the expression that it holds. -/
inductive Expression : IntegralType → Type where
  | number {Src : IntegralType} (T : IntegralType) (value : Value Src) : Expression T
  | convert {Src : IntegralType} (T : IntegralType) (operand : Expression Src) : Expression T
  | neg {T : IntegralType} (operand : Expression T) : Expression T
  | binary {S T : IntegralType} (operator : Operator) (lhs : Expression S) (rhs : Expression T) :
      Expression (arithmeticPromotion T S)
  | numberRight {S T : IntegralType} (operator : Operator) (lhs : Expression S) (rhs : Value T) :
      Expression (arithmeticPromotion S T)
  | numberLeft {S T : IntegralType} (operator : Operator) (lhs : Value S) (rhs : Expression T) :
      Expression (arithmeticPromotion T S)
  | assign {S T : IntegralType} (operator : Operator) (lhs : Expression S) (rhs : Expression T) : Expression S

namespace Expression

/-- What the code computes. -/
def eval : {T : IntegralType} → Expression T → Option (CheckedNumeric T)
  | _, .number T value => some (ofValue T value)
  | _, .convert T operand => operand.eval.map (CheckedNumeric.cast T)
  | _, .neg operand => operand.eval.map CheckedNumeric.neg
  | _, .binary operator lhs rhs => lhs.eval.bind fun l => rhs.eval.bind fun r => CheckedNumeric.binary operator l r
  | _, .numberRight operator lhs rhs => lhs.eval.bind fun l => CheckedNumeric.numberRight operator l rhs
  | _, .numberLeft operator lhs rhs => rhs.eval.bind fun r => CheckedNumeric.numberLeft operator lhs r
  | _, .assign operator lhs rhs => lhs.eval.bind fun l => rhs.eval.bind fun r => CheckedNumeric.assign operator l r

/-- The result among all integers. -/
def exact : {T : IntegralType} → Expression T → Int
  | _, .number _ value => value.number
  | _, .convert _ operand => operand.exact
  | _, .neg operand => -operand.exact
  | _, .binary operator lhs rhs | _, .assign operator lhs rhs => operator.exact lhs.exact rhs.exact
  | _, .numberRight operator lhs rhs => operator.exact lhs.exact rhs.number
  | _, .numberLeft operator lhs rhs => operator.exact lhs.number rhs.exact

/-- Every exact result on the way has its place in the type that the code computes it in. -/
def Representable : {T : IntegralType} → Expression T → Prop
  | _, .number T value => T.Holds value.number
  | _, .convert T operand => operand.Representable ∧ T.Holds operand.exact
  | T, .neg operand => operand.Representable ∧ T.Holds (-operand.exact)
  | _, @Expression.binary S T operator lhs rhs =>
    lhs.Representable ∧ rhs.Representable ∧ Promotes (arithmeticPromotion T S) operator lhs.exact rhs.exact
  | _, @Expression.numberRight S T operator lhs rhs =>
    lhs.Representable ∧ Promotes (arithmeticPromotion S T) operator lhs.exact rhs.number
  | _, @Expression.numberLeft S T operator lhs rhs =>
    rhs.Representable ∧ Promotes (arithmeticPromotion T S) operator lhs.number rhs.exact
  | S, @Expression.assign _ T operator lhs rhs =>
    (lhs.Representable ∧ rhs.Representable ∧ Promotes (arithmeticPromotion T S) operator lhs.exact rhs.exact) ∧
      S.Holds (operator.exact lhs.exact rhs.exact)

/-- A property of an expression and of all expressions in it. -/
def Throughout (property : ∀ {T : IntegralType}, Expression T → Prop) :
    {T : IntegralType} → Expression T → Prop
  | _, .number T value => property (.number T value)
  | _, .convert T operand => property (.convert T operand) ∧ Throughout property operand
  | _, .neg operand => property (.neg operand) ∧ Throughout property operand
  | _, .binary operator lhs rhs =>
    property (.binary operator lhs rhs) ∧ Throughout property lhs ∧ Throughout property rhs
  | _, .numberRight operator lhs rhs => property (.numberRight operator lhs rhs) ∧ Throughout property lhs
  | _, .numberLeft operator lhs rhs => property (.numberLeft operator lhs rhs) ∧ Throughout property rhs
  | _, .assign operator lhs rhs =>
    property (.assign operator lhs rhs) ∧ Throughout property lhs ∧ Throughout property rhs

/-- The expression divides by no zero. -/
def Divides {T : IntegralType} : Expression T → Prop
  | .binary operator _ rhs | .numberLeft operator _ rhs | .assign operator _ rhs =>
    operator = .div → rhs.exact ≠ 0
  | .numberRight operator _ rhs => operator = .div → rhs.number ≠ 0
  | _ => True

/-- If the result is valid, it is the exact one. -/
def Sound {T : IntegralType} (e : Expression T) : Prop :=
  ∀ c, e.eval = some c → c.isValid = true → c.number = e.exact

/-- An operator for values of one type has a result that the type holds, if the promoted type holds it. -/
def KeptBy {S T : IntegralType} (operator : Operator) (lhs : Expression S) (rhs : Expression T) : Prop :=
  S = T → lhs.Representable → rhs.Representable →
    (arithmeticPromotion T S).Holds (operator.exact lhs.exact rhs.exact) →
    T.Holds (operator.exact lhs.exact rhs.exact)

/-- Such operators are the binary ones and the compound assignments. -/
def Kept {T : IntegralType} : Expression T → Prop
  | .binary operator lhs rhs => KeptBy operator lhs rhs
  | .assign operator lhs rhs => KeptBy operator lhs rhs
  | _ => True

theorem binary_same {T : IntegralType} (operator : Operator) (lhs rhs : CheckedNumeric T) :
    CheckedNumeric.binary operator lhs rhs = sameType operator lhs rhs := by
  unfold CheckedNumeric.binary
  generalize decEq T T = decision
  cases decision with
  | isTrue => rfl
  | isFalse different => exact (different rfl).elim

theorem binary_different {S T : IntegralType} (different : S ≠ T) (operator : Operator) (lhs : CheckedNumeric S)
    (rhs : CheckedNumeric T) : CheckedNumeric.binary operator lhs rhs = differentTypes operator lhs rhs := by
  unfold CheckedNumeric.binary
  generalize decEq S T = decision
  cases decision with
  | isTrue same => exact (different same).elim
  | isFalse => rfl

theorem Representable.holds {T : IntegralType} {e : Expression T} (representable : e.Representable) :
    T.Holds e.exact := by
  cases e with
  | number T value => exact representable
  | convert => exact representable.2
  | neg => exact representable.2
  | binary => exact representable.2.2.2.2
  | numberRight => exact representable.2.2.2
  | numberLeft => exact representable.2.2.2
  | assign => exact representable.2

section Operators

variable {S T : IntegralType} {lhs : Expression S} {rhs : Expression T} {operator : Operator}

theorem computes_binary (left : Computes lhs.eval lhs.Representable lhs.exact)
    (right : Computes rhs.eval rhs.Representable rhs.exact) (divides : operator = .div → rhs.exact ≠ 0)
    (kept : KeptBy operator lhs rhs) :
    Computes (lhs.eval.bind fun l => rhs.eval.bind fun r => CheckedNumeric.binary operator l r)
      (lhs.Representable ∧ rhs.Representable ∧ Promotes (arithmeticPromotion T S) operator lhs.exact rhs.exact)
      (operator.exact lhs.exact rhs.exact) := by
  by_cases same : S = T
  · subst same
    simp only [binary_same]
    refine (left.sameType right divides (kept rfl)).congr ?_
    constructor
    · rintro ⟨first, second, holds⟩
      have contains := arithmeticPromotion_contains S
      exact ⟨first, second, first.holds.mono contains, second.holds.mono contains, holds⟩
    · rintro ⟨first, second, _, _, holds⟩
      exact ⟨first, second, holds⟩
  · simp only [binary_different same]
    exact left.differentTypes right divides

/-- An operator for one type wraps around a result that only the promoted type holds. -/
theorem wraps (left : Computes lhs.eval lhs.Representable lhs.exact)
    (right : Computes rhs.eval rhs.Representable rhs.exact) (divides : operator = .div → rhs.exact ≠ 0)
    (notKept : ¬KeptBy operator lhs rhs) :
    S = T ∧ ¬T.Holds (operator.exact lhs.exact rhs.exact) ∧
      ∃ c, (lhs.eval.bind fun l => rhs.eval.bind fun r => CheckedNumeric.binary operator l r) = some c ∧
        c.isValid = true ∧ T.Holds c.number := by
  simp only [KeptBy, Classical.not_imp] at notKept
  obtain ⟨same, first, second, holds, leaves⟩ := notKept
  subst same
  obtain ⟨l, resultLeft, validLeft, numberLeft⟩ := left.yields first
  obtain ⟨r, resultRight, validRight, numberRight⟩ := right.yields second
  refine ⟨rfl, leaves, ?_⟩
  rw [resultLeft, resultRight]
  simp only [Option.bind_some, binary_same]
  rcases sameType_spec operator l r with ⟨division, zero, _⟩ | ⟨c, computed, isValid, returned⟩
  · exact (divides division (numberRight ▸ zero)).elim
  · rw [numberLeft, numberRight] at isValid returned
    refine ⟨c, computed, isValid.mpr ⟨validLeft, validRight, holds⟩, ?_⟩
    rw [returned holds]
    exact Value.holds _

theorem eval_assign : (Expression.assign operator lhs rhs).eval =
    (lhs.eval.bind fun l => rhs.eval.bind fun r => CheckedNumeric.binary operator l r).map
      (CheckedNumeric.cast S) := by
  rw [eval]
  simp only [CheckedNumeric.assign, cast_self]
  cases lhs.eval <;> cases rhs.eval <;> rfl

end Operators

/-- An expression without a wrap around is computed exactly. -/
theorem computes {T : IntegralType} (e : Expression T) (divides : Throughout Divides e)
    (kept : Throughout Kept e) : Computes e.eval e.Representable e.exact := by
  induction e with
  | number T value => exact computes_ofValue T value
  | convert T operand ih => exact (ih divides.2 kept.2).cast T
  | neg operand ih => exact (ih divides.2 kept.2).neg
  | binary operator lhs rhs left right =>
    exact computes_binary (left divides.2.1 kept.2.1) (right divides.2.2 kept.2.2) divides.1 kept.1
  | numberRight operator lhs rhs left => exact (left divides.2 kept.2).numberRight rhs divides.1
  | numberLeft operator lhs rhs right => exact Computes.numberLeft lhs (right divides.2 kept.2) divides.1
  | assign operator lhs rhs left right =>
    rw [eval_assign]
    exact (computes_binary (left divides.2.1 kept.2.1) (right divides.2.2 kept.2.2) divides.1 kept.1).cast _

theorem Throughout.root {property : ∀ {T : IntegralType}, Expression T → Prop} {T : IntegralType}
    {e : Expression T} (all : Throughout property e) : property e := by
  cases e with
  | number T value => exact all
  | convert | neg | binary | numberRight | numberLeft | assign => exact all.1

theorem sound_of_kept {T : IntegralType} (e : Expression T) (divides : Throughout Divides e)
    (kept : Throughout Kept e) : Throughout Sound e := by
  have root : Sound e := fun _ result valid => (computes e divides kept).number result valid
  induction e with
  | number T value => exact root
  | convert T operand ih | neg operand ih =>
    exact ⟨root, ih divides.2 kept.2 fun _ result valid => (computes _ divides.2 kept.2).number result valid⟩
  | numberRight operator lhs rhs ih | numberLeft operator lhs rhs ih =>
    exact ⟨root, ih divides.2 kept.2 fun _ result valid => (computes _ divides.2 kept.2).number result valid⟩
  | binary operator lhs rhs left right | assign operator lhs rhs left right =>
    refine ⟨root, left divides.2.1 kept.2.1 ?_, right divides.2.2 kept.2.2 ?_⟩
    · exact fun _ result valid => (computes _ divides.2.1 kept.2.1).number result valid
    · exact fun _ result valid => (computes _ divides.2.2 kept.2.2).number result valid

/-- Where all results are sound, no operator wraps around: the first one that did would not be sound. -/
theorem kept_of_sound {T : IntegralType} (e : Expression T) (divides : Throughout Divides e)
    (sound : Throughout Sound e) : Throughout Kept e := by
  induction e with
  | number T value => trivial
  | convert T operand ih | neg operand ih => exact ⟨trivial, ih divides.2 sound.2⟩
  | numberRight operator lhs rhs left => exact ⟨trivial, left divides.2 sound.2⟩
  | numberLeft operator lhs rhs right => exact ⟨trivial, right divides.2 sound.2⟩
  | binary operator lhs rhs left right =>
    have keptLeft := left divides.2.1 sound.2.1
    have keptRight := right divides.2.2 sound.2.2
    refine ⟨?_, keptLeft, keptRight⟩
    by_contra notKept
    obtain ⟨_, leaves, c, result, valid, holds⟩ := wraps (computes lhs divides.2.1 keptLeft)
      (computes rhs divides.2.2 keptRight) divides.1 notKept
    rw [sound.1 c result valid] at holds
    exact leaves holds
  | assign operator lhs rhs left right =>
    have keptLeft := left divides.2.1 sound.2.1
    have keptRight := right divides.2.2 sound.2.2
    refine ⟨?_, keptLeft, keptRight⟩
    by_contra notKept
    obtain ⟨rfl, leaves, c, result, valid, holds⟩ := wraps (computes lhs divides.2.1 keptLeft)
      (computes rhs divides.2.2 keptRight) divides.1 notKept
    have number := sound.1 _ (by rw [eval_assign, result]; rfl) ((cast_isValid _ c).mpr ⟨valid, holds⟩)
    exact leaves ((show c.number = operator.exact lhs.exact rhs.exact from
      (ofState_number _ holds).symm.trans number) ▸ holds)

/-- An operation on valid operands of one type is valid if that type holds the exact result. -/
structure Complete (T : IntegralType) : Prop where
  binary : ∀ (operator : Operator) (lhs rhs : CheckedNumeric T), (operator = .div → rhs.number ≠ 0) →
    lhs.isValid = true → rhs.isValid = true → T.Holds (operator.exact lhs.number rhs.number) →
    ∃ c, CheckedNumeric.binary operator lhs rhs = some c ∧ c.isValid = true
  assign : ∀ (operator : Operator) (lhs rhs : CheckedNumeric T), (operator = .div → rhs.number ≠ 0) →
    lhs.isValid = true → rhs.isValid = true → T.Holds (operator.exact lhs.number rhs.number) →
    ∃ c, CheckedNumeric.assign operator lhs rhs = some c ∧ c.isValid = true
  neg : ∀ c : CheckedNumeric T, c.isValid = true → T.Holds (-c.number) → c.neg.isValid = true

theorem complete (T : IntegralType) : Complete T := by
  have valid : ∀ (operator : Operator) (lhs rhs : CheckedNumeric T), (operator = .div → rhs.number ≠ 0) →
      lhs.isValid = true → rhs.isValid = true → T.Holds (operator.exact lhs.number rhs.number) →
      ∃ c, CheckedNumeric.binary operator lhs rhs = some c ∧ c.isValid = true ∧ T.Holds c.number := by
    intro operator lhs rhs divides left right holds
    rw [binary_same]
    rcases sameType_spec operator lhs rhs with ⟨division, zero, _⟩ | ⟨c, computed, isValid, returned⟩
    · exact (divides division zero).elim
    · have wide := holds.mono (arithmeticPromotion_contains T)
      exact ⟨c, computed, isValid.mpr ⟨left, right, wide⟩, returned wide ▸ Value.holds _⟩
  refine ⟨fun operator lhs rhs divides left right holds => ?_, fun operator lhs rhs divides left right holds => ?_,
    fun c isValid holds => ?_⟩
  · obtain ⟨c, computed, isValid, _⟩ := valid operator lhs rhs divides left right holds
    exact ⟨c, computed, isValid⟩
  · obtain ⟨c, computed, isValid, fits⟩ := valid operator lhs rhs divides left right holds
    refine ⟨CheckedNumeric.cast T c, ?_, (cast_isValid T c).mpr ⟨isValid, fits⟩⟩
    rw [CheckedNumeric.assign, cast_self, cast_self, computed]
    rfl
  · have computes := Computes.neg (T := T) (b := some c) (q := True) (y := c.number)
      ⟨fun _ => ⟨c, rfl, isValid, rfl⟩, fun _ _ _ => trivial⟩
    obtain ⟨_, result, negated, _⟩ := computes.yields ⟨trivial, holds⟩
    cases result
    exact negated

/-- Valid results are exact, in an expression and in all expressions in it, if and only if no operator for
values of one type has a result that only the promoted type holds. An operation on valid operands of one
type is valid whenever that type holds its exact result. -/
theorem sound_iff_kept {T : IntegralType} (e : Expression T) (divides : Throughout Divides e) :
    (Throughout Sound e ↔ Throughout Kept e) ∧ (Throughout Kept e → Sound e) ∧ ∀ T, Complete T :=
  ⟨⟨kept_of_sound e divides, sound_of_kept e divides⟩, fun kept => (sound_of_kept e divides kept).root, complete⟩

/-- `int8_t`. -/
def int8 : IntegralType := ⟨.one, true⟩

/-- `CheckedNumeric<int8_t>(127) + CheckedNumeric<int8_t>(1)`. -/
def wrappedSum : Expression (arithmeticPromotion int8 int8) :=
  .binary .add (.number int8 (Value.of int8 127)) (.number int8 (Value.of int8 1))

/-- The sum is valid, and it is -128. -/
theorem not_sound_wrappedSum : ¬Sound wrappedSum := by
  intro sound
  have number := sound ⟨Value.of .int (-128), .valid⟩ (by decide) (by decide)
  exact absurd number (by decide)

theorem sound_iff_kept_wrappedSum : ¬Throughout Kept wrappedSum := by
  have divides : Throughout Divides wrappedSum := ⟨nofun, trivial, trivial⟩
  intro kept
  exact not_sound_wrappedSum ((sound_iff_kept wrappedSum divides).2.1 kept)

end Expression

end Libchrome.Base.Numerics
