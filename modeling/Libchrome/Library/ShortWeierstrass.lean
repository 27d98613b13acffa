import Mathlib.AlgebraicGeometry.EllipticCurve.Affine.Point
import Mathlib.Tactic.FieldSimp
import Mathlib.Tactic.LinearCombination

/-!
# Jacobian coordinates on `y² = x³ + ax + b`

A triple `(x, y, z)` with `z ≠ 0` stands for the affine point `(x / z², y / z³)`, one with `z = 0` for the point at
infinity. The doubling and the addition are those of the textbooks; each is taken to the sum in the group of the curve.
-/

namespace Libchrome.Library
open WeierstrassCurve

variable {F : Type*} [Field F]

/-- The curve `y² = x³ + ax + b`. -/
abbrev shortWeierstrass (a b : F) : WeierstrassCurve.Affine F := ⟨0, 0, 0, a, b⟩

@[ext] structure Jacobian (F : Type*) where
  x : F
  y : F
  z : F
  deriving DecidableEq

namespace Jacobian

/-- A triple that stands for a point of the curve. -/
def Represents {W : WeierstrassCurve.Affine F} (triple : Jacobian F) (point : W.Point) : Prop :=
  (triple.z = 0 ∧ point = 0) ∨
    triple.z ≠ 0 ∧ ∃ nonsingular, point = .some (triple.x / triple.z ^ 2) (triple.y / triple.z ^ 3) nonsingular

/-- The doubling, where `alpha` is the numerator of the slope. -/
def double (alpha : F) (triple : Jacobian F) : Jacobian F :=
  let gamma := triple.y ^ 2
  let beta := triple.x * gamma
  let x := alpha ^ 2 - 8 * beta
  ⟨x, alpha * (4 * beta - x) - 8 * gamma ^ 2, (triple.y + triple.z) ^ 2 - gamma - triple.z ^ 2⟩

/-- The difference of the abscissas of two triples, brought to one denominator. -/
def h (first second : Jacobian F) : F := second.x * first.z ^ 2 - first.x * second.z ^ 2

/-- The difference of the ordinates. -/
def r (first second : Jacobian F) : F := second.y * first.z ^ 3 - first.y * second.z ^ 3

/-- The addition of two triples that stand for different points, neither of them at infinity. -/
def addDistinct (first second : Jacobian F) : Jacobian F :=
  let h := first.h second
  let i := (2 * h) ^ 2
  let j := h * i
  let r := 2 * first.r second
  let v := first.x * second.z ^ 2 * i
  let x := r ^ 2 - (j + 2 * v)
  ⟨x, r * (v - x) - 2 * (first.y * second.z ^ 3) * j,
    ((first.z + second.z) ^ 2 - (first.z ^ 2 + second.z ^ 2)) * h⟩

/-- The addition of any two triples on a curve with the coefficient `a`. -/
def add [DecidableEq F] (a : F) (first second : Jacobian F) : Jacobian F :=
  if first.z = 0 then second
  else if second.z = 0 then first
  else if first.h second = 0 ∧ first.r second = 0 then first.double (3 * first.x ^ 2 + a * first.z ^ 4)
  else first.addDistinct second

/-- Double, then add if the bit is set. -/
def multStep [DecidableEq F] (a : F) (triple out : Jacobian F) (bit : Bool) : Jacobian F :=
  let doubled := out.double (3 * out.x ^ 2 + a * out.z ^ 4)
  if bit then triple.add a doubled else doubled

/-- Double and add, from the most significant bit on. -/
def scalarMult [DecidableEq F] (a : F) (triple : Jacobian F) (bits : List Bool) : Jacobian F :=
  bits.foldl (triple.multStep a) ⟨0, 0, 0⟩

/-- The number of these bits. -/
def ofBits (bits : List Bool) : Nat := bits.foldl (fun number bit => 2 * number + bit.toNat) 0

variable {W : WeierstrassCurve.Affine F} {triple : Jacobian F}

theorem represents_some {x y : F} {nonsingular : W.Nonsingular x y} (finite : triple.z ≠ 0)
    (abscissa : triple.x = x * triple.z ^ 2) (ordinate : triple.y = y * triple.z ^ 3) :
    triple.Represents (.some x y nonsingular) := by
  have same_x : triple.x / triple.z ^ 2 = x := by rw [abscissa, mul_div_cancel_right₀ _ (pow_ne_zero 2 finite)]
  have same_y : triple.y / triple.z ^ 3 = y := by rw [ordinate, mul_div_cancel_right₀ _ (pow_ne_zero 3 finite)]
  refine .inr ⟨finite, same_x.symm ▸ same_y.symm ▸ nonsingular, ?_⟩
  simp only [same_x, same_y]

/-- A triple in finite position, by the coordinates of its point. -/
theorem Represents.cases {point : W.Point} (represents : triple.Represents point) :
    (triple.z = 0 ∧ point = 0) ∨
      triple.z ≠ 0 ∧ ∃ x y, ∃ nonsingular : W.Nonsingular x y, point = .some x y nonsingular ∧
        triple.x = x * triple.z ^ 2 ∧ triple.y = y * triple.z ^ 3 := by
  refine represents.imp id fun ⟨finite, nonsingular, same⟩ => ⟨finite, _, _, nonsingular, same, ?_, ?_⟩
  · rw [div_mul_cancel₀ _ (pow_ne_zero 2 finite)]
  · rw [div_mul_cancel₀ _ (pow_ne_zero 3 finite)]

/-! ### Affine points -/

theorem equation_iff {a b x y : F} : (shortWeierstrass a b).Equation x y ↔ y ^ 2 = x ^ 3 + a * x + b := by
  rw [Affine.equation_iff]
  simp

/-- Every pair on a smooth curve makes a triple. -/
theorem represents_affine {a b x y : F} (smooth : (shortWeierstrass a b).Δ ≠ 0) (on : y ^ 2 = x ^ 3 + a * x + b) :
    ∃ point : (shortWeierstrass a b).Point, (Jacobian.mk x y 1).Represents point := by
  have nonsingular := (Affine.equation_iff_nonsingular_of_Δ_ne_zero smooth).mp (equation_iff.mpr on)
  exact ⟨.some x y nonsingular, represents_some one_ne_zero (by ring) (by ring)⟩

/-- The pair of a triple in affine form is on the curve. -/
theorem equation_of_represents {a b x y : F} {point : (shortWeierstrass a b).Point}
    (represents : (Jacobian.mk x y 1).Represents point) : y ^ 2 = x ^ 3 + a * x + b := by
  rcases represents.cases with ⟨infinite, -⟩ | ⟨-, x', y', nonsingular, -, abscissa, ordinate⟩
  · exact absurd infinite one_ne_zero
  · have same : x = x' := abscissa.trans (by ring)
    have same' : y = y' := ordinate.trans (by ring)
    rw [same, same']
    exact equation_iff.mp nonsingular.1

/-- Only a triple at infinity stands for the neutral element. -/
theorem Represents.infinite (represents : triple.Represents (0 : W.Point)) : triple.z = 0 := by
  rcases represents with ⟨infinite, -⟩ | ⟨-, nonsingular, same⟩
  · exact infinite
  · exact absurd same.symm (Affine.Point.some_ne_zero nonsingular)

/-- The negative of a triple, brought to affine form. -/
def affineNeg (triple : Jacobian F) : Jacobian F :=
  ⟨triple.x * triple.z⁻¹ ^ 2, -(triple.y * triple.z⁻¹ ^ 3), 1⟩

theorem represents_affineNeg {a b : F} {point : (shortWeierstrass a b).Point} (finite : triple.z ≠ 0)
    (represents : triple.Represents point) : triple.affineNeg.Represents (-point) := by
  rcases represents.cases with ⟨infinite, -⟩ | ⟨-, x, y, nonsingular, rfl, abscissa, ordinate⟩
  · exact absurd infinite finite
  · rw [Affine.Point.neg_some]
    apply represents_some one_ne_zero
    · rw [affineNeg, abscissa, inv_pow, mul_inv_cancel_right₀ (pow_ne_zero 2 finite), one_pow, mul_one]
    · rw [affineNeg, ordinate, inv_pow _ 3, mul_inv_cancel_right₀ (pow_ne_zero 3 finite), one_pow, mul_one]
      simp [Affine.negY]

section
variable [DecidableEq F] {a b : F} {first second : Jacobian F} {point other : (shortWeierstrass a b).Point}

theorem represents_double (two : (2 : F) ≠ 0) (represents : first.Represents point) :
    (first.double (3 * first.x ^ 2 + a * first.z ^ 4)).Represents (point + point) := by
  have depth : (first.double (3 * first.x ^ 2 + a * first.z ^ 4)).z = 2 * first.y * first.z := by
    simp only [double]
    ring
  rcases represents.cases with ⟨infinite, rfl⟩ | ⟨finite, x, y, nonsingular, rfl, abscissa, ordinate⟩
  · exact .inl ⟨by rw [depth, infinite, mul_zero], add_zero _⟩
  · by_cases vertical : y = 0
    · refine .inl ⟨by rw [depth, ordinate, vertical]; ring, ?_⟩
      apply Affine.Point.add_self_of_Y_eq
      simp [vertical]
    · have tangent : y ≠ (shortWeierstrass a b).negY x y := by
        intro same
        have twice : 2 * y = 0 := by
          simp only [Affine.negY] at same
          linear_combination same
        exact (mul_ne_zero two vertical) twice
      have slope : (shortWeierstrass a b).slope x x y y * (2 * y) = 3 * x ^ 2 + a := by
        have run : y - (shortWeierstrass a b).negY x y = 2 * y := by
          simp only [Affine.negY]
          ring
        rw [Affine.slope_of_Y_ne rfl tangent, run, div_mul_cancel₀ _ (mul_ne_zero two vertical)]
        ring
      rw [Affine.Point.add_self_of_Y_ne tangent]
      apply represents_some
      · rw [depth, ordinate]
        exact mul_ne_zero (mul_ne_zero two (mul_ne_zero vertical (pow_ne_zero 3 finite))) finite
      · rw [depth]
        simp only [double, Affine.addX, abscissa, ordinate]
        linear_combination (-(first.z ^ 8 * ((shortWeierstrass a b).slope x x y y * (2 * y) + 3 * x ^ 2 + a))) * slope
      · rw [depth]
        simp only [double, Affine.addY, Affine.negAddY, Affine.addX, Affine.negY, abscissa, ordinate]
        generalize (shortWeierstrass a b).slope x x y y = s at slope ⊢
        linear_combination (-(first.z ^ 12 * (12 * x * y ^ 2 - ((3 * x ^ 2 + a) ^ 2 + (3 * x ^ 2 + a) * (s * (2 * y)) +
          (s * (2 * y)) ^ 2)))) * slope

theorem represents_addDistinct (two : (2 : F) ≠ 0) (finite : first.z ≠ 0) (finite' : second.z ≠ 0)
    (represents : first.Represents point) (represents' : second.Represents other)
    (different : first.h second ≠ 0 ∨ first.r second ≠ 0) : (first.addDistinct second).Represents (point + other) := by
  obtain ⟨infinite, -⟩ | ⟨-, x, y, nonsingular, rfl, abscissa, ordinate⟩ := represents.cases
  · exact absurd infinite finite
  obtain ⟨infinite, -⟩ | ⟨-, x', y', nonsingular', rfl, abscissa', ordinate'⟩ := represents'.cases
  · exact absurd infinite finite'
  have h_eq : first.h second = (x' - x) * (first.z * second.z) ^ 2 := by
    rw [h, abscissa, abscissa']
    ring
  have r_eq : first.r second = (y' - y) * (first.z * second.z) ^ 3 := by
    rw [r, ordinate, ordinate']
    ring
  have depth : (first.addDistinct second).z = 2 * (first.z * second.z) * first.h second := by
    simp only [addDistinct]
    ring
  have product : first.z * second.z ≠ 0 := mul_ne_zero finite finite'
  by_cases vertical : x = x'
  · subst vertical
    have level : first.h second = 0 := by rw [h_eq, sub_self, zero_mul]
    have apart : y ≠ y' := by
      rintro rfl
      have same : first.r second = 0 := by rw [r_eq, sub_self, zero_mul]
      exact different.elim (absurd level) (absurd same)
    refine .inl ⟨by rw [depth, level, mul_zero], ?_⟩
    exact Affine.Point.add_of_Y_eq rfl
      ((Affine.Y_eq_of_X_eq nonsingular.1 nonsingular'.1 rfl).resolve_left apart)
  · have slope : (shortWeierstrass a b).slope x x' y y' * (x - x') = y - y' := by
      rw [Affine.slope_of_X_ne vertical, div_mul_cancel₀ _ (sub_ne_zero.mpr vertical)]
    rw [Affine.Point.add_of_X_ne vertical]
    apply represents_some
    · rw [depth, h_eq]
      exact mul_ne_zero (mul_ne_zero two product)
        (mul_ne_zero (sub_ne_zero.mpr (Ne.symm vertical)) (pow_ne_zero 2 product))
    · rw [depth]
      simp only [addDistinct, h_eq, r_eq, Affine.addX, abscissa, ordinate]
      generalize (shortWeierstrass a b).slope x x' y y' = s at slope ⊢
      linear_combination (-4 * (first.z * second.z) ^ 6 * (s * (x - x') + (y - y'))) * slope
    · rw [depth]
      simp only [addDistinct, h_eq, r_eq, Affine.addY, Affine.negAddY, Affine.addX, Affine.negY, abscissa, ordinate]
      generalize (shortWeierstrass a b).slope x x' y y' = s at slope ⊢
      linear_combination (8 * (first.z * second.z) ^ 9 * ((x' - x) ^ 2 * (2 * x + x') -
        ((y' - y) ^ 2 + (y' - y) * (s * (x' - x)) + (s * (x' - x)) ^ 2))) * slope

omit [DecidableEq F] in
theorem represents_unique (finite : first.z ≠ 0) (finite' : second.z ≠ 0) (level : first.h second = 0)
    (same : first.r second = 0) (represents : first.Represents point) (represents' : second.Represents other) :
    other = point := by
  obtain ⟨infinite, -⟩ | ⟨-, nonsingular, rfl⟩ := represents
  · exact absurd infinite finite
  obtain ⟨infinite, -⟩ | ⟨-, nonsingular', rfl⟩ := represents'
  · exact absurd infinite finite'
  have abscissas : second.x / second.z ^ 2 = first.x / first.z ^ 2 := by
    rw [div_eq_div_iff (pow_ne_zero 2 finite') (pow_ne_zero 2 finite)]
    exact sub_eq_zero.mp level
  have ordinates : second.y / second.z ^ 3 = first.y / first.z ^ 3 := by
    rw [div_eq_div_iff (pow_ne_zero 3 finite') (pow_ne_zero 3 finite)]
    exact sub_eq_zero.mp same
  simp only [abscissas, ordinates]

/-- The addition finds out by itself which of its cases it is in. -/
theorem represents_add (two : (2 : F) ≠ 0) (represents : first.Represents point)
    (represents' : second.Represents other) : (first.add a second).Represents (point + other) := by
  unfold add
  split
  next infinite =>
    obtain ⟨-, rfl⟩ | ⟨finite, -⟩ := represents
    · rwa [zero_add]
    · exact absurd infinite finite
  next finite =>
    split
    next infinite =>
      obtain ⟨-, rfl⟩ | ⟨finite', -⟩ := represents'
      · rwa [add_zero]
      · exact absurd infinite finite'
    next finite' =>
      split
      next same =>
        have equal : other = point := represents_unique finite finite' same.1 same.2 represents represents'
        rw [equal]
        exact represents_double two represents
      next different =>
        exact represents_addDistinct two finite finite' represents represents' (not_and_or.mp different)

theorem represents_multStep (two : (2 : F) ≠ 0) (represents : first.Represents point) {out : Jacobian F} {number : ℕ}
    (multiple : out.Represents (number • point)) (bit : Bool) :
    (first.multStep a out bit).Represents ((2 * number + bit.toNat) • point) := by
  have doubled := represents_double two multiple
  rw [← two_nsmul, ← mul_nsmul'] at doubled
  cases bit with
  | false => exact doubled
  | true =>
    have added := represents_add two represents doubled
    rwa [← succ_nsmul'] at added

theorem represents_scalarMult (two : (2 : F) ≠ 0) (represents : first.Represents point) (bits : List Bool) :
    (first.scalarMult a bits).Represents (ofBits bits • point) := by
  have run : ∀ (bits : List Bool) (out : Jacobian F) (number : Nat), out.Represents (number • point) →
      (bits.foldl (first.multStep a) out).Represents
        (bits.foldl (fun number bit => 2 * number + bit.toNat) number • point) := by
    intro bits
    induction bits with
    | nil => exact fun _ _ start => start
    | cons bit rest ih =>
      intro out number start
      exact ih _ _ (represents_multStep two represents start bit)
  exact run bits ⟨0, 0, 0⟩ 0 (.inl ⟨rfl, zero_nsmul _⟩)

end
end Jacobian
end Libchrome.Library
