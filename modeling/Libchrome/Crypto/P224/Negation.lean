import Mathlib.FieldTheory.Finite.Basic
import Libchrome.Crypto.P224.Formulas

/-! `Invert` raises to the power `p - 2`, by a chain of squares and products. -/

namespace Libchrome.Crypto.P224
open Library Audited

/-- A loop of `Square`. -/
def squares (count : ℕ) (a : FieldElement) : Audited FieldElement :=
  (List.range count).foldlM (fun a _ => square a) a

def invert (x : FieldElement) : Audited FieldElement := do
  let f1 ← square x             -- 2
  let f1 ← mul f1 x             -- 2**2 - 1
  let f1 ← square f1            -- 2**3 - 2
  let f1 ← mul f1 x             -- 2**3 - 1
  let f2 ← square f1            -- 2**4 - 2
  let f2 ← square f2            -- 2**5 - 4
  let f2 ← square f2            -- 2**6 - 8
  let f1 ← mul f1 f2            -- 2**6 - 1
  let f2 ← square f1            -- 2**7 - 2
  let f2 ← squares 5 f2         -- 2**12 - 2**6
  let f2 ← mul f2 f1            -- 2**12 - 1
  let f3 ← square f2            -- 2**13 - 2
  let f3 ← squares 11 f3        -- 2**24 - 2**12
  let f2 ← mul f3 f2            -- 2**24 - 1
  let f3 ← square f2            -- 2**25 - 2
  let f3 ← squares 23 f3        -- 2**48 - 2**24
  let f3 ← mul f3 f2            -- 2**48 - 1
  let f4 ← square f3            -- 2**49 - 2
  let f4 ← squares 47 f4        -- 2**96 - 2**48
  let f3 ← mul f3 f4            -- 2**96 - 1
  let f4 ← square f3            -- 2**97 - 2
  let f4 ← squares 23 f4        -- 2**120 - 2**24
  let f2 ← mul f4 f2            -- 2**120 - 1
  let f2 ← squares 6 f2         -- 2**126 - 2**6
  let f1 ← mul f1 f2            -- 2**126 - 1
  let f1 ← square f1            -- 2**127 - 2
  let f1 ← mul f1 x             -- 2**127 - 1
  let f1 ← squares 97 f1        -- 2**224 - 2**97
  mul f1 f3                     -- 2**224 - 2**96 - 1

/-- The limbs stand for a power. -/
abbrev Power (x : ZMod prime) (exponent : ℕ) (a : FieldElement) : Prop := Denotes reducedBound (x ^ exponent) a

section
variable {x : ZMod prime} {a b : FieldElement} {first second : ℕ}

theorem Power.square_meets (power : Power x first a) (exponent : ℕ) (double : first * 2 = exponent) :
    (square a).Meets (Power x exponent) := by
  have meets := square_denotes power (by decide)
  rwa [← pow_mul, double] at meets

theorem Power.mul_meets (left : Power x first a) (right : Power x second b) (exponent : ℕ)
    (sum : first + second = exponent) : (mul a b).Meets (Power x exponent) := by
  have meets := mul_denotes left right (by decide)
  rwa [← pow_add, sum] at meets

theorem Power.mul_base_meets (power : Power x first a) {most : ℕ} (denotes : Denotes most x b) (fits : most < 2 ^ 29)
    (exponent : ℕ) (next : first + 1 = exponent) : (mul a b).Meets (Power x exponent) := by
  have meets := mul_denotes power denotes (Or.inl ⟨by decide, by omega⟩)
  rwa [← pow_succ, next] at meets

theorem Power.squares_meets (power : Power x first a) (count exponent : ℕ) (shifted : first * 2 ^ count = exponent) :
    (squares count a).Meets (Power x exponent) := by
  have run : (squares count a).Meets (Power x (first * 2 ^ (List.range count).length)) := by
    apply Meets.foldlM (fun steps a => Power x (first * 2 ^ steps) a)
    · rwa [pow_zero, mul_one]
    · exact fun step next holds => holds.square_meets _ (by rw [pow_succ, mul_assoc])
  rwa [List.length_range, shifted] at run

end

theorem pow_sub_two (x : ZMod prime) : x ^ (prime - 2) = x⁻¹ := by
  by_cases zero : x = 0
  · rw [zero, inv_zero, zero_pow (by decide)]
  · apply eq_inv_of_mul_eq_one_left
    rw [← pow_succ]
    exact ZMod.pow_card_sub_one_eq_one zero

theorem invert_meets {a : FieldElement} {x : ZMod prime} {most : ℕ} (denotes : Denotes most x a)
    (fits : most < 2 ^ 29) : (invert a).Meets (Denotes reducedBound x⁻¹) := by
  unfold invert
  apply (square_denotes denotes fits).bind
  intro f1 (power : Power x 2 f1)
  apply (power.mul_base_meets denotes fits (2 ^ 2 - 1) (by norm_num)).bind
  intro f1 power
  apply (power.square_meets (2 ^ 3 - 2) (by norm_num)).bind
  intro f1 power
  apply (power.mul_base_meets denotes fits (2 ^ 3 - 1) (by norm_num)).bind
  intro f1 ones3
  apply (ones3.square_meets (2 ^ 4 - 2) (by norm_num)).bind
  intro f2 power
  apply (power.square_meets (2 ^ 5 - 4) (by norm_num)).bind
  intro f2 power
  apply (power.square_meets (2 ^ 6 - 8) (by norm_num)).bind
  intro f2 power
  apply (ones3.mul_meets power (2 ^ 6 - 1) (by norm_num)).bind
  intro f1 ones6
  apply (ones6.square_meets (2 ^ 7 - 2) (by norm_num)).bind
  intro f2 power
  apply (power.squares_meets 5 (2 ^ 12 - 2 ^ 6) (by norm_num)).bind
  intro f2 power
  apply (power.mul_meets ones6 (2 ^ 12 - 1) (by norm_num)).bind
  intro f2 ones12
  apply (ones12.square_meets (2 ^ 13 - 2) (by norm_num)).bind
  intro f3 power
  apply (power.squares_meets 11 (2 ^ 24 - 2 ^ 12) (by norm_num)).bind
  intro f3 power
  apply (power.mul_meets ones12 (2 ^ 24 - 1) (by norm_num)).bind
  intro f2 ones24
  apply (ones24.square_meets (2 ^ 25 - 2) (by norm_num)).bind
  intro f3 power
  apply (power.squares_meets 23 (2 ^ 48 - 2 ^ 24) (by norm_num)).bind
  intro f3 power
  apply (power.mul_meets ones24 (2 ^ 48 - 1) (by norm_num)).bind
  intro f3 ones48
  apply (ones48.square_meets (2 ^ 49 - 2) (by norm_num)).bind
  intro f4 power
  apply (power.squares_meets 47 (2 ^ 96 - 2 ^ 48) (by norm_num)).bind
  intro f4 power
  apply (ones48.mul_meets power (2 ^ 96 - 1) (by norm_num)).bind
  intro f3 ones96
  apply (ones96.square_meets (2 ^ 97 - 2) (by norm_num)).bind
  intro f4 power
  apply (power.squares_meets 23 (2 ^ 120 - 2 ^ 24) (by norm_num)).bind
  intro f4 power
  apply (power.mul_meets ones24 (2 ^ 120 - 1) (by norm_num)).bind
  intro f2 ones120
  apply (ones120.squares_meets 6 (2 ^ 126 - 2 ^ 6) (by norm_num)).bind
  intro f2 power
  apply (ones6.mul_meets power (2 ^ 126 - 1) (by norm_num)).bind
  intro f1 ones126
  apply (ones126.square_meets (2 ^ 127 - 2) (by norm_num)).bind
  intro f1 power
  apply (power.mul_base_meets denotes fits (2 ^ 127 - 1) (by norm_num)).bind
  intro f1 ones127
  apply (ones127.squares_meets 97 (2 ^ 224 - 2 ^ 97) (by norm_num)).bind
  intro f1 power
  apply (power.mul_meets ones96 (prime - 2) (by norm_num [prime])).mono
  intro out power
  rwa [Power, pow_sub_two] at power

/-- `Invert` raises to the power `p - 2`, so it inverts what is not zero, and returns zero for zero. -/
theorem invert_correct {a : FieldElement} (below : Below a (2 ^ 29)) :
    (invert a).Meets fun out => Below out (2 ^ 29) ∧ valueOf out ≡ valueOf a ^ (prime - 2) [ZMOD prime] ∧
      (¬valueOf a ≡ 0 [ZMOD prime] → valueOf out * valueOf a ≡ 1 [ZMOD prime]) ∧
      (valueOf a ≡ 0 [ZMOD prime] → valueOf out ≡ 0 [ZMOD prime]) := by
  apply (invert_meets (denotes_of_below below) (by decide)).mono
  intro out denotes
  simp only [← ZMod.intCast_eq_intCast_iff]
  push_cast
  rw [denotes.value]
  refine ⟨denotes.below (by decide), (pow_sub_two _).symm, inv_mul_cancel₀, fun zero => ?_⟩
  rw [zero, inv_zero]

theorem invert_correct_two :
    let two : FieldElement := ![2, 0, 0, 0, 0, 0, 0, 0]
    (invert two).Meets fun out => Below out (2 ^ 29) ∧ valueOf out ≡ valueOf two ^ (prime - 2) [ZMOD prime] ∧
      (¬valueOf two ≡ 0 [ZMOD prime] → valueOf out * valueOf two ≡ 1 [ZMOD prime]) ∧
      (valueOf two ≡ 0 [ZMOD prime] → valueOf out ≡ 0 [ZMOD prime]) :=
  invert_correct (by decide)

/-! `Point::SetFromString` accepts points of the curve only. -/

/-- `NetToHost32` of a word of the input. -/
def hostWord (string : List (BitVec 8)) (index : Nat) : BitVec 32 :=
  string.getD (4 * index) 0 ++ string.getD (4 * index + 1) 0 ++ string.getD (4 * index + 2) 0 ++
    string.getD (4 * index + 3) 0

/-- `Get224Bits`, from words in host order. -/
def get224Bits (words : Nat → BitVec 32) : FieldElement :=
  ![words 6 &&& kBottom28Bits,
    (words 5 <<< 4 ||| words 6 >>> 28) &&& kBottom28Bits,
    (words 4 <<< 8 ||| words 5 >>> 24) &&& kBottom28Bits,
    (words 3 <<< 12 ||| words 4 >>> 20) &&& kBottom28Bits,
    (words 2 <<< 16 ||| words 3 >>> 16) &&& kBottom28Bits,
    (words 1 <<< 20 ||| words 2 >>> 12) &&& kBottom28Bits,
    (words 0 <<< 24 ||| words 1 >>> 8) &&& kBottom28Bits,
    (words 0 >>> 4) &&& kBottom28Bits]

/-- The point after `SetFromString`, and what it returns. -/
def setFromString (point : Point) (string : List (BitVec 8)) : Audited (Point × Bool) := do
  if string.length ≠ 2 * 28 then return (point, false)
  let x := get224Bits (hostWord string)
  let y := get224Bits fun index => hostWord string (index + 7)
  -- Check that the point is on the curve, i.e. that y² = x³ - 3x + b.
  let lhs ← square y
  let lhs := contract lhs
  let rhs ← square x
  let rhs ← mul x rhs
  let three_x ← timesThree x
  let three_x ← reduce three_x
  let rhs ← subtractReduce rhs three_x
  let rhs ← add rhs kB
  let rhs := contract rhs
  return ({ x, y, z := ![1, 0, 0, 0, 0, 0, 0, 0] }, lhs = rhs)

theorem below_get224Bits (words : Nat → BitVec 32) : Below (get224Bits words) (2 ^ 28) := by
  have masked (word : BitVec 32) : (word &&& kBottom28Bits).toNat < 2 ^ 28 := by
    rw [toNat_bottom]
    exact Nat.mod_lt _ (by decide)
  intro j
  fin_cases j <;> exact masked _

theorem setFromString_meets (point : Point) (string : List (BitVec 8)) :
    (setFromString point string).Meets fun result =>
      result.2 = true → ∃ represented, result.1.Represents represented := by
  unfold setFromString
  split
  next => exact Meets.pure fun accepted => absurd accepted Bool.false_ne_true
  next =>
    have below_x := below_get224Bits (hostWord string)
    have below_y := below_get224Bits fun index => hostWord string (index + 7)
    generalize get224Bits (hostWord string) = x at below_x ⊢
    generalize (get224Bits fun index => hostWord string (index + 7)) = y at below_y ⊢
    have wide_x : Below x (2 ^ 29) := fun j => (below_x j).trans (by decide)
    have wide_y : Below y (2 ^ 29) := fun j => (below_y j).trans (by decide)
    have x_eq : Denotes (2 ^ 28 - 1) (valueOf x) x := ⟨fun j => Nat.le_sub_one_of_lt (below_x j), rfl⟩
    have kB_eq : Denotes (2 ^ 28 - 1) coefficient kB := ⟨by decide, rfl⟩
    apply (square_denotes (denotes_of_below wide_y) (by decide)).bind
    intro lhs lhs_eq
    apply (square_denotes x_eq (by decide)).bind
    intro rhs1 rhs1_eq
    apply (mul_denotes x_eq rhs1_eq (by decide)).bind
    intro rhs2 rhs2_eq
    apply (timesThree_meets x_eq (by decide)).bind
    intro three_x1 three_x1_eq
    apply (reduce_denotes three_x1_eq (by decide)).bind
    intro three_x three_x_eq
    apply (subtractReduce_meets rhs2_eq three_x_eq (by decide) (by decide)).bind
    intro rhs3 rhs3_eq
    apply (add_meets rhs3_eq kB_eq (by decide)).bind
    intro rhs rhs_eq
    apply Meets.pure
    intro accepted
    have same := modEq_of_contract_eq (lhs_eq.below (by decide)) (rhs_eq.below (by decide)) (of_decide_eq_true accepted)
    have equation := (ZMod.intCast_eq_intCast_iff _ _ _).mpr same
    rw [lhs_eq.value, rhs_eq.value] at equation
    have one : Below ![1, 0, 0, 0, 0, 0, 0, 0] (2 ^ 29) := by decide
    apply exists_represents ⟨wide_x, wide_y, one⟩ (by decide)
    rw [equation]
    push_cast
    ring

/-! `Negate` is right about all points but that at infinity. -/

def negate (p : Point) : Audited Point := do
  let zinv ← invert p.z
  let zinv_sq ← square zinv
  let x ← mul p.x zinv_sq
  let zinv_sq ← mul zinv_sq zinv
  let y ← mul p.y zinv_sq
  let y ← subtractReduce kP y
  return { x, y, z := ![1, 0, 0, 0, 0, 0, 0, 0] }

/-- The points that the API yields, from what it has yielded before. -/
inductive Obtained : Point → Prop where
  | setFromString (point : Point) (string : List (BitVec 8)) :
      (setFromString point string).value.2 = true → Obtained (setFromString point string).value.1
  | scalarBaseMult (scalar : List (BitVec 8)) : Obtained (scalarMult kBasePoint scalar).value
  | scalarMult {p : Point} (scalar : List (BitVec 8)) : Obtained p → Obtained (scalarMult p scalar).value
  | add {p q : Point} : Obtained p → Obtained q → Obtained (addJacobian p q).value
  | negate {p : Point} : Obtained p → ¬valueOf p.z ≡ 0 [ZMOD prime] → Obtained (negate p).value

/-- A point that is the negative of another, so far as validity and the sum tell. -/
def Negates (p negative : Point) : Prop :=
  (∃ point, negative.Represents point) ∧ valueOf (addJacobian p negative).value.z ≡ 0 [ZMOD prime]

variable {p : Point}

theorem negate_meets (bounded : p.Bounded) : (negate p).Meets (PointDenotes inputBound p.triple.affineNeg) := by
  have denotes := bounded.denotes
  have kP_eq : Denotes (2 ^ 28 - 1) 0 kP := ⟨by decide, by
    have zero : valueOf kP ≡ 0 [ZMOD prime] := by decide
    rw [(ZMod.intCast_eq_intCast_iff _ _ _).mpr zero, Int.cast_zero]⟩
  have one : Denotes inputBound 1 ![1, 0, 0, 0, 0, 0, 0, 0] := ⟨by decide, by
    have unit : valueOf ![1, 0, 0, 0, 0, 0, 0, 0] = 1 := by decide
    rw [unit, Int.cast_one]⟩
  unfold negate
  apply (invert_meets denotes.z (by decide)).bind
  intro zinv zinv_eq
  apply (square_denotes zinv_eq (by decide)).bind
  intro zinv_sq zinv_sq_eq
  apply (mul_denotes denotes.x zinv_sq_eq (by decide)).bind
  intro x x_eq
  apply (mul_denotes zinv_sq_eq zinv_eq (by decide)).bind
  intro zinv_cubed zinv_cubed_eq
  apply (mul_denotes denotes.y zinv_cubed_eq (by decide)).bind
  intro y1 y1_eq
  apply (subtractReduce_meets kP_eq y1_eq (by decide) (by decide)).bind
  intro y y_eq
  apply Meets.pure
  constructor
  · exact x_eq.mono (by decide)
  · convert y_eq.mono (show reducedBound ≤ inputBound by decide) using 1
    rw [Jacobian.affineNeg]
    ring
  · exact one

variable {point : curve.Point}

/-- The point at infinity. -/
theorem infinite_iff (represents : p.Represents point) : valueOf p.z ≡ 0 [ZMOD prime] ↔ point = 0 := by
  have cast : valueOf p.z ≡ 0 [ZMOD prime] ↔ p.triple.z = 0 := by
    rw [← ZMod.intCast_eq_intCast_iff, Int.cast_zero]
    rfl
  rw [cast]
  constructor
  · intro infinite
    rcases represents.represents with ⟨-, zero⟩ | ⟨finite, -⟩
    · exact zero
    · exact absurd infinite finite
  · rintro rfl
    exact represents.represents.infinite

theorem coefficient_ne_zero : coefficient ≠ 0 := by
  rw [coefficient, ne_eq, ZMod.intCast_zmod_eq_zero_iff_dvd]
  decide

theorem not_represents_negate (represents : p.Represents point) (infinite : valueOf p.z ≡ 0 [ZMOD prime])
    (other : curve.Point) : ¬(negate p).value.Represents other := by
  intro represents'
  have triple := (negate_meets represents.bounded).2.triple_eq
  have depth : p.triple.z = 0 := by
    have zero := (infinite_iff represents).mp infinite
    rw [zero] at represents
    exact represents.represents.infinite
  have origin : p.triple.affineNeg = ⟨0, 0, 1⟩ := by
    rw [Jacobian.affineNeg, depth]
    simp
  have on := represents'.represents
  rw [triple, origin] at on
  have equation := Jacobian.equation_of_represents on
  apply coefficient_ne_zero
  linear_combination -equation

theorem negates_iff (represents : p.Represents point) :
    Negates p (negate p).value ↔ ¬valueOf p.z ≡ 0 [ZMOD prime] := by
  constructor
  · rintro ⟨⟨other, represents'⟩, -⟩ infinite
    exact not_represents_negate represents infinite other represents'
  · intro finite
    have depth : p.triple.z ≠ 0 := by
      intro zero
      apply finite
      rw [infinite_iff represents]
      rcases represents.represents with ⟨-, zero'⟩ | ⟨finite', -⟩
      · exact zero'
      · exact absurd zero finite'
    have negative : (negate p).value.Represents (-point) :=
      (negate_meets represents.bounded).2.represents (Nat.le_refl _)
        (Jacobian.represents_affineNeg depth represents.represents)
    have sum := (addJacobian_represents represents negative).2
    rw [add_neg_cancel] at sum
    exact ⟨⟨-point, negative⟩, (infinite_iff sum).mpr rfl⟩

theorem Obtained.represents (obtained : Obtained p) : ∃ point, p.Represents point := by
  induction obtained with
  | setFromString point string accepted => exact (setFromString_meets point string).2 accepted
  | scalarBaseMult scalar =>
    obtain ⟨point, represents⟩ := kBasePoint_represents
    exact ⟨_, (scalarMult_represents represents scalar).2⟩
  | scalarMult scalar _ ih =>
    obtain ⟨point, represents⟩ := ih
    exact ⟨_, (scalarMult_represents represents scalar).2⟩
  | add _ _ ih ih' =>
    obtain ⟨point, represents⟩ := ih
    obtain ⟨other, represents'⟩ := ih'
    exact ⟨_, (addJacobian_represents represents represents').2⟩
  | negate _ finite ih =>
    obtain ⟨point, represents⟩ := ih
    exact ((negates_iff represents).mpr finite).1

/-- `Negate` yields the negative of exactly the points that are not at infinity. -/
theorem negate_correct_iff {p : Point} (obtained : Obtained p) :
    Negates p (negate p).value ↔ ¬valueOf p.z ≡ 0 [ZMOD prime] := by
  obtain ⟨point, represents⟩ := obtained.represents
  exact negates_iff represents

/-- A multiple of the base point. -/
theorem negate_correct_iff_base :
    let p := (scalarMult kBasePoint (List.replicate 28 1)).value
    Negates p (negate p).value ↔ ¬valueOf p.z ≡ 0 [ZMOD prime] :=
  negate_correct_iff (Obtained.scalarBaseMult (List.replicate 28 1))

/-- A scalar of zeros makes the point at infinity. -/
theorem negate_infinity : ¬∀ p, Obtained p → Negates p (negate p).value := by
  intro every
  obtain ⟨point, represents⟩ := kBasePoint_represents
  have multiple := (scalarMult_represents represents (List.replicate 28 0)).2
  have number : Jacobian.ofBits ((List.replicate 28 0).flatMap bitsOfByte) = 0 := by decide +kernel
  rw [number, zero_nsmul] at multiple
  have negates := every _ (Obtained.scalarBaseMult (List.replicate 28 0))
  exact (negates_iff multiple).mp negates ((infinite_iff multiple).mpr rfl)

end Libchrome.Crypto.P224
