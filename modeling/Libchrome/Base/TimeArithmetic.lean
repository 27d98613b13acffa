import Libchrome.Base.Numerics.CheckedExpressions
import Libchrome.Base.Time

/-!
# Saturating arithmetic of `TimeDelta` and `TimeBase`

The operators compute in a `CheckedNumeric<int64_t>`, and what does not fit becomes the largest value or
its negation. A time minus a delta is the negation of the delta minus the time: that one overflows when
the difference is the smallest `int64_t`.
-/

namespace Libchrome.Base.Time

open Library Numerics
open CheckedNumeric hiding cast

/-- `int64_t`. -/
def int64 : IntegralType := ⟨.eight, true⟩

/-- `TimeDelta`. -/
structure TimeDelta where
  delta : Value int64
  deriving DecidableEq, Repr

/-- `TimeBase`, of which `Time` and `TimeTicks` are instances. -/
structure TimeBase where
  us : Value int64
  deriving DecidableEq, Repr

/-- The built-in unary `-`, which has no result when it overflows. -/
def negate (x : Value int64) : Option (Value int64) :=
  if int64.Holds (-x.number) then some (Value.of int64 (-x.number)) else none

/-- `CheckedNumeric::ValueOrDefault`. -/
def valueOrDefault (value : CheckedNumeric int64) (default : Value int64) : Value int64 :=
  if value.isValid then value.value else default

/-- `time_internal::FromCheckedNumeric`. -/
def fromCheckedNumeric (value : CheckedNumeric int64) : Option (Value int64) :=
  if value.isValid then some value.value
  else
    let limit := Value.of int64 int64.max
    (if value.validity = .underflow then negate limit else some limit).map (valueOrDefault value)

/-- `time_internal::SaturatedAdd`. -/
def saturatedAdd (delta : TimeDelta) (value : Value int64) : Option (Value int64) :=
  (assign .add (ofValue int64 delta.delta) (ofValue int64 value)).bind fromCheckedNumeric

/-- `time_internal::SaturatedSub`. -/
def saturatedSub (delta : TimeDelta) (value : Value int64) : Option (Value int64) :=
  (assign .sub (ofValue int64 delta.delta) (ofValue int64 value)).bind fromCheckedNumeric

/-- `TimeDelta::operator+`. -/
def TimeDelta.add (delta other : TimeDelta) : Option TimeDelta :=
  (saturatedAdd delta other.delta).map TimeDelta.mk

/-- `TimeDelta::operator-`. -/
def TimeDelta.sub (delta other : TimeDelta) : Option TimeDelta :=
  (saturatedSub delta other.delta).map TimeDelta.mk

/-- `TimeBase::operator+` with a delta. -/
def TimeBase.add (time : TimeBase) (delta : TimeDelta) : Option TimeBase :=
  (saturatedAdd delta time.us).map TimeBase.mk

/-- `TimeBase::operator-` with a delta. -/
def TimeBase.sub (time : TimeBase) (delta : TimeDelta) : Option TimeBase :=
  ((saturatedSub delta time.us).bind negate).map TimeBase.mk

/-- What the saturating operations make of an exact result. -/
def saturate (n : Int) : Int :=
  if n > int64.max then int64.max else if n < int64.min then -int64.max else n

theorem limits : int64.min = -2 ^ 63 ∧ int64.max = 2 ^ 63 - 1 := by decide

theorem holds_iff (n : Int) : int64.Holds n ↔ int64.min ≤ n ∧ n ≤ int64.max := Iff.rfl

theorem negate_eq_some_iff {x r : Value int64} :
    negate x = some r ↔ int64.Holds (-x.number) ∧ r.number = -x.number := by
  unfold negate
  split
  next holds =>
    rw [Option.some_inj]
    constructor
    · intro same
      exact ⟨holds, same ▸ Value.number_of holds⟩
    · rintro ⟨_, number⟩
      rw [← number, Value.of_number]
  next overflows => exact iff_of_false nofun fun ⟨holds, _⟩ => overflows holds

/-- A checked result, with the direction in which it misses the type. -/
structure Directed (c : CheckedNumeric int64) (exact : Int) : Prop where
  fits : int64.Holds exact → c.validity = .valid ∧ c.number = exact
  above : int64.max < exact → c.validity = .overflow
  below : exact < int64.min → c.validity = .underflow

theorem fromCheckedNumeric_number {c : CheckedNumeric int64} {exact : Int} (directed : Directed c exact) :
    ∃ r, fromCheckedNumeric c = some r ∧ r.number = saturate exact := by
  obtain ⟨least, greatest⟩ := limits
  have limit : (Value.of int64 int64.max).number = int64.max := Value.number_of int64.holds_max
  unfold saturate
  by_cases above : int64.max < exact
  · have overflow := directed.above above
    refine ⟨Value.of int64 int64.max, ?_, ?_⟩
    · simp [fromCheckedNumeric, valueOrDefault, isValid, overflow]
    · rw [limit, if_pos above]
  · rw [if_neg above]
    by_cases below : exact < int64.min
    · have underflow := directed.below below
      have holds : int64.Holds (-int64.max) := by
        rw [holds_iff]
        omega
      have negated : negate (Value.of int64 int64.max) = some (Value.of int64 (-int64.max)) := by
        rw [negate_eq_some_iff, limit]
        exact ⟨holds, Value.number_of holds⟩
      refine ⟨Value.of int64 (-int64.max), ?_, ?_⟩
      · simp [fromCheckedNumeric, valueOrDefault, isValid, underflow, negated]
      · rw [Value.number_of holds, if_pos below]
    · rw [if_neg below]
      obtain ⟨valid, number⟩ := directed.fits ((holds_iff exact).mpr (by omega))
      refine ⟨c.value, ?_, number⟩
      rw [fromCheckedNumeric, if_pos (isValid_iff.mpr valid)]

theorem union_valid (validity : RangeConstraint) : validity.union .valid = validity := by
  cases validity <;> rfl

theorem ofValue_self (value : Value int64) : ofValue int64 value = ⟨value, .valid⟩ := by
  have valid : dstRangeRelationToSrcRange int64 value = .valid :=
    (dstRangeRelationToSrcRange_eq_valid int64 value).mpr value.holds
  rw [ofValue, valid, staticCast, Value.of_number]

/-- An assignment between values of `int64_t` is the checked operation. -/
theorem assign_eq (operator : Operator) (x y : Value int64) :
    assign operator (ofValue int64 x) (ofValue int64 y) =
      (operator.checked x y .valid).map fun checked => ⟨checked.result, checked.validity⟩ := by
  have contained (value : Value int64) : dstRangeRelationToSrcRange int64 value = .valid :=
    (dstRangeRelationToSrcRange_eq_valid int64 value).mpr value.holds
  have kept (value : Value int64) (validity : RangeConstraint) :
      ofState int64 value validity = ⟨value, validity⟩ := by
    rw [ofState, contained, union_valid, staticCast, Value.of_number]
  have self (value : Value int64) : staticCast int64 value = value := Value.of_number value
  have same : assign operator (ofValue int64 x) (ofValue int64 y) =
      (operator.checked (staticCast int64 x) (staticCast int64 y) .valid).map fun checked =>
        CheckedNumeric.cast int64 (ofState int64 (staticCast int64 checked.result)
          ((checked.validity.union .valid).union .valid)) := by
    rw [assign, cast_self, cast_self, Expression.binary_same, ofValue_self, ofValue_self, sameType]
    simp only [not_isIntegerArithmeticSafe, Bool.false_eq_true, if_false]
    rw [Option.map_map]
    rfl
  rw [same, self, self]
  congr 1
  funext checked
  rw [CheckedNumeric.cast, self, kept, kept, union_valid, union_valid]

theorem hasSignBit_of_wrapped {n : Int} (misses : ¬int64.Holds n) (once : -2 ^ 64 ≤ n ∧ n < 2 ^ 64) :
    hasSignBit (Value.of int64 n) = true ↔ int64.max < n := by
  obtain ⟨least, greatest⟩ := limits
  rw [holds_iff] at misses
  have wrapped : (Value.of int64 n).toInt = n.bmod (2 ^ 64) := BitVec.toInt_ofInt ..
  rw [hasSignBit_eq_msb, BitVec.msb_eq_toInt, decide_eq_true_iff, wrapped, Int.bmod_def]
  split <;> omega

theorem directed_of_checks {checked : Checked int64} {n : Int} (checks : Checks checked n)
    (wrapped : checked.result = Value.of int64 n) (once : -2 ^ 64 ≤ n ∧ n < 2 ^ 64)
    (directs : checked.validity ≠ .valid →
      checked.validity = if hasSignBit checked.result then .overflow else .underflow) :
    Directed ⟨checked.result, checked.validity⟩ n := by
  obtain ⟨least, greatest⟩ := limits
  constructor
  · intro holds
    exact ⟨checks.valid_iff.mpr holds, checks.number holds⟩
  · intro above
    have misses : ¬int64.Holds n := by
      rw [holds_iff]
      omega
    have sign := (hasSignBit_of_wrapped misses once).mpr above
    have direction := directs (fun valid => misses (checks.valid_iff.mp valid))
    rwa [wrapped, sign, if_pos rfl] at direction
  · intro below
    have misses : ¬int64.Holds n := by
      rw [holds_iff]
      omega
    have sign : ¬hasSignBit (Value.of int64 n) = true := by
      rw [hasSignBit_of_wrapped misses once]
      omega
    have direction := directs (fun valid => misses (checks.valid_iff.mp valid))
    rwa [wrapped, if_neg sign] at direction

theorem checkedAdd_directs {T : IntegralType} (signed : T.isSigned = true) (x y : Value T)
    (invalid : (checkedAdd x y).validity ≠ .valid) :
    (checkedAdd x y).validity = if hasSignBit (checkedAdd x y).result then .overflow else .underflow := by
  unfold checkedAdd at invalid ⊢
  simp only [signed, if_true] at invalid ⊢
  rw [if_neg fun fits => invalid (if_pos fits)]

theorem checkedSub_directs {T : IntegralType} (signed : T.isSigned = true) (x y : Value T)
    (invalid : (checkedSub x y).validity ≠ .valid) :
    (checkedSub x y).validity = if hasSignBit (checkedSub x y).result then .overflow else .underflow := by
  unfold checkedSub at invalid ⊢
  simp only [signed, if_true] at invalid ⊢
  rw [if_neg fun fits => invalid (if_pos fits)]

theorem number_bounds (x : Value int64) : -2 ^ 63 ≤ x.number ∧ x.number < 2 ^ 63 := by
  obtain ⟨least, greatest⟩ := limits
  have holds := (holds_iff x.number).mp x.holds
  omega

theorem saturatedAdd_number (delta : TimeDelta) (value : Value int64) :
    ∃ r, saturatedAdd delta value = some r ∧ r.number = saturate (delta.delta.number + value.number) := by
  have left := number_bounds delta.delta
  have right := number_bounds value
  have directed := directed_of_checks (checkedAdd_checks delta.delta value)
    (add_eq_ofInt int64.isSigned delta.delta value) (by omega)
    (checkedAdd_directs rfl delta.delta value)
  rw [saturatedAdd, assign_eq]
  exact fromCheckedNumeric_number directed

theorem saturatedSub_number (delta : TimeDelta) (value : Value int64) :
    ∃ r, saturatedSub delta value = some r ∧ r.number = saturate (delta.delta.number - value.number) := by
  have left := number_bounds delta.delta
  have right := number_bounds value
  have directed := directed_of_checks (checkedSub_checks delta.delta value)
    (sub_eq_ofInt int64.isSigned delta.delta value) (by omega)
    (checkedSub_directs rfl delta.delta value)
  rw [saturatedSub, assign_eq]
  exact fromCheckedNumeric_number directed

/-! ### The operators -/

/-- A use of one of the four operators. -/
inductive Operation where
  | deltaPlusDelta (delta other : TimeDelta)
  | deltaMinusDelta (delta other : TimeDelta)
  | timePlusDelta (time : TimeBase) (delta : TimeDelta)
  | timeMinusDelta (time : TimeBase) (delta : TimeDelta)

/-- The number of microseconds in its result. -/
def Operation.run : Operation → Option (Value int64)
  | .deltaPlusDelta delta other => (delta.add other).map TimeDelta.delta
  | .deltaMinusDelta delta other => (delta.sub other).map TimeDelta.delta
  | .timePlusDelta time delta => (time.add delta).map TimeBase.us
  | .timeMinusDelta time delta => (time.sub delta).map TimeBase.us

/-- The result among all integers. -/
def Operation.exact : Operation → Int
  | .deltaPlusDelta delta other => delta.delta.number + other.delta.number
  | .deltaMinusDelta delta other => delta.delta.number - other.delta.number
  | .timePlusDelta time delta => time.us.number + delta.delta.number
  | .timeMinusDelta time delta => time.us.number - delta.delta.number

/-- An `int64_t` result that is the exact one strictly between the limits, and the limit on the side of the
exact one elsewhere. The lower limit may be either of the two least values. -/
structure Saturates (result : Option (Value int64)) (exact : Int) : Prop where
  inside : int64.min < exact → exact < int64.max → ∃ r, result = some r ∧ r.number = exact
  above : int64.max ≤ exact → ∃ r, result = some r ∧ r.number = int64.max
  below : exact ≤ int64.min → ∃ r, result = some r ∧ (r.number = int64.min ∨ r.number = -int64.max)

theorem Operation.saturates_of_saturate {result : Option (Value int64)} {exact : Int}
    (saturated : ∃ r, result = some r ∧ r.number = saturate exact) : Saturates result exact := by
  obtain ⟨least, greatest⟩ := limits
  obtain ⟨r, returned, number⟩ := saturated
  unfold saturate at number
  constructor
  · intro above below
    refine ⟨r, returned, ?_⟩
    rw [number, if_neg (by omega), if_neg (by omega)]
  · intro above
    refine ⟨r, returned, ?_⟩
    split at number <;> omega
  · intro below
    refine ⟨r, returned, ?_⟩
    rw [if_neg (by omega)] at number
    split at number <;> omega

theorem TimeBase.sub_eq (time : TimeBase) (delta : TimeDelta) :
    ∃ r, saturatedSub delta time.us = some r ∧
      r.number = saturate (delta.delta.number - time.us.number) ∧
      (Operation.timeMinusDelta time delta).run = negate r := by
  obtain ⟨r, returned, number⟩ := saturatedSub_number delta time.us
  refine ⟨r, returned, number, ?_⟩
  simp [Operation.run, TimeBase.sub, returned, Function.comp_def]

/-- The operators saturate, but for a time minus a delta whose exact result is one more than the largest
value: there the negation overflows. -/
theorem Operation.saturates_iff (operation : Operation) :
    Saturates operation.run operation.exact ↔
      ∀ time delta, operation = .timeMinusDelta time delta → time.us.number - delta.delta.number ≠ 2 ^ 63 := by
  obtain ⟨least, greatest⟩ := limits
  cases operation with
  | deltaPlusDelta delta other =>
    obtain ⟨r, returned, number⟩ := saturatedAdd_number delta other.delta
    have saturates : Saturates (Operation.deltaPlusDelta delta other).run _ :=
      saturates_of_saturate ⟨r, by simp [run, TimeDelta.add, returned], number⟩
    exact iff_of_true saturates (by simp)
  | deltaMinusDelta delta other =>
    obtain ⟨r, returned, number⟩ := saturatedSub_number delta other.delta
    have saturates : Saturates (Operation.deltaMinusDelta delta other).run _ :=
      saturates_of_saturate ⟨r, by simp [run, TimeDelta.sub, returned], number⟩
    exact iff_of_true saturates (by simp)
  | timePlusDelta time delta =>
    obtain ⟨r, returned, number⟩ := saturatedAdd_number delta time.us
    have saturates : Saturates (Operation.timePlusDelta time delta).run _ :=
      saturates_of_saturate ⟨r, by simp [run, TimeBase.add, returned], Int.add_comm .. ▸ number⟩
    exact iff_of_true saturates (by simp)
  | timeMinusDelta time delta =>
    obtain ⟨r, _, number, result⟩ := TimeBase.sub_eq time delta
    have only : (∀ time' delta', timeMinusDelta time delta = timeMinusDelta time' delta' →
        time'.us.number - delta'.delta.number ≠ 2 ^ 63) ↔ time.us.number - delta.delta.number ≠ 2 ^ 63 := by
      constructor
      · intro differs
        exact differs time delta rfl
      · intro differs time' delta' same
        cases same
        exact differs
    rw [only, result]
    constructor
    · intro saturates greater
      obtain ⟨r', negated, _⟩ := saturates.above (by simp only [exact]; omega)
      obtain ⟨holds, _⟩ := negate_eq_some_iff.mp negated
      rw [holds_iff, number, saturate, if_neg (by omega), if_neg (by omega)] at holds
      omega
    · intro differs
      have holds : int64.Holds (-r.number) := by
        rw [holds_iff, number, saturate]
        split
        · omega
        · split <;> omega
      have negated : negate r = some (Value.of int64 (-r.number)) := if_pos holds
      have reading : (Value.of int64 (-r.number)).number = -saturate (delta.delta.number - time.us.number) := by
        rw [Value.number_of holds, number]
      unfold saturate at reading
      rw [negated]
      constructor
      · intro above below
        simp only [exact] at above below ⊢
        refine ⟨_, rfl, ?_⟩
        rw [reading, if_neg (by omega), if_neg (by omega)]
        omega
      · intro above
        simp only [exact] at above
        refine ⟨_, rfl, ?_⟩
        rw [reading, if_neg (by omega)]
        split <;> omega
      · intro below
        simp only [exact] at below
        refine ⟨_, rfl, ?_⟩
        rw [reading]
        split
        · omega
        · split <;> omega

/-- One microsecond minus the delta that the additions saturate to at the lower limit. -/
theorem Operation.not_saturates_sub :
    ¬∀ operation : Operation, Saturates operation.run operation.exact := by
  intro saturates
  have result : (timeMinusDelta ⟨1⟩ ⟨Value.of int64 (-(2 ^ 63 - 1))⟩).run = none := by decide
  obtain ⟨r, returned, _⟩ := (saturates (timeMinusDelta ⟨1⟩ ⟨Value.of int64 (-(2 ^ 63 - 1))⟩)).above (by decide)
  rw [result] at returned
  cases returned

end Libchrome.Base.Time
