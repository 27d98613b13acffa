import Libchrome.Crypto.P224.Denotation
import Libchrome.Crypto.P224.Contraction
import Libchrome.Library.ShortWeierstrass

/-! The point formulas never leave the headroom of the limbs, and compute the formulas of the field. -/

namespace Libchrome.Crypto.P224
open Library Audited

/-- The limbs of the coordinates are at most `bound` and stand for those of a triple. -/
structure PointDenotes (bound : ℕ) (triple : Jacobian (ZMod prime)) (p : Point) : Prop where
  x : Denotes bound triple.x p.x
  y : Denotes bound triple.y p.y
  z : Denotes bound triple.z p.z

/-- Limbs below `2 ^ 29`. -/
abbrev inputBound : ℕ := 2 ^ 29 - 1

theorem PointDenotes.mono {bound bound' : ℕ} {triple : Jacobian (ZMod prime)} {p : Point}
    (denotes : PointDenotes bound triple p) (le : bound ≤ bound') : PointDenotes bound' triple p :=
  ⟨denotes.x.mono le, denotes.y.mono le, denotes.z.mono le⟩

theorem doubleJacobian_meets {a : Point} {t : Jacobian (ZMod prime)} (denotes : PointDenotes inputBound t a) :
    (doubleJacobian a).Meets (PointDenotes reducedBound (t.double (3 * t.x ^ 2 + -3 * t.z ^ 4))) := by
  obtain ⟨ax, ay, az⟩ := denotes
  unfold doubleJacobian
  apply (square_denotes az (by decide)).bind
  intro delta delta_eq
  apply (square_denotes ay (by decide)).bind
  intro gamma gamma_eq
  apply (mul_denotes ax gamma_eq (by decide)).bind
  intro beta beta_eq
  apply (add_meets ax delta_eq (by decide)).bind
  intro t1 t1_eq
  apply (addDouble_meets t1_eq (by decide)).bind
  intro t2 t2_eq
  apply (reduce_denotes t2_eq (by decide)).bind
  intro t3 t3_eq
  apply (subtractReduce_meets ax delta_eq (by decide) (by decide)).bind
  intro alpha1 alpha1_eq
  apply (mul_denotes alpha1_eq t3_eq (by decide)).bind
  intro alpha alpha_eq
  apply (add_meets ay az (by decide)).bind
  intro z1 z1_eq
  apply (reduce_denotes z1_eq (by decide)).bind
  intro z2 z2_eq
  apply (square_denotes z2_eq (by decide)).bind
  intro z3 z3_eq
  apply (subtractReduce_meets z3_eq gamma_eq (by decide) (by decide)).bind
  intro z4 z4_eq
  apply (subtractReduce_meets z4_eq delta_eq (by decide) (by decide)).bind
  intro z z_eq
  apply (shiftReduce_meets beta_eq (by decide)).bind
  intro beta8 beta8_eq
  apply (square_denotes alpha_eq (by decide)).bind
  intro x1 x1_eq
  apply (subtractReduce_meets x1_eq beta8_eq (by decide) (by decide)).bind
  intro x x_eq
  apply (shiftReduce_meets beta_eq (by decide)).bind
  intro beta4 beta4_eq
  apply (subtractReduce_meets beta4_eq x_eq (by decide) (by decide)).bind
  intro beta5 beta5_eq
  apply (square_denotes gamma_eq (by decide)).bind
  intro gamma1 gamma1_eq
  apply (shiftReduce_meets gamma1_eq (by decide)).bind
  intro gamma2 gamma2_eq
  apply (mul_denotes alpha_eq beta5_eq (by decide)).bind
  intro y1 y1_eq
  apply (subtractReduce_meets y1_eq gamma2_eq (by decide) (by decide)).bind
  intro y y_eq
  apply Meets.pure
  constructor
  · convert x_eq using 1
    simp only [Jacobian.double]
    push_cast
    ring
  · convert y_eq using 1
    simp only [Jacobian.double]
    push_cast
    ring
  · exact z_eq

/-! ### Conditional copies -/

theorem copyLimbs_asMask (out a : FieldElement) (condition : Prop) [Decidable condition] :
    copyLimbs out a (asMask condition) = if condition then a else out := by
  funext i
  unfold copyLimbs asMask
  split
  next => rw [BitVec.allOnes_and, BitVec.xor_comm (a i), ← BitVec.xor_assoc, BitVec.xor_self, BitVec.zero_xor]
  next => rw [BitVec.zero_and, BitVec.xor_zero]

theorem copyConditional_asMask (out a : Point) (condition : Prop) [Decidable condition] :
    copyConditional out a (asMask condition) = if condition then a else out := by
  unfold copyConditional
  simp only [copyLimbs_asMask]
  split <;> rfl

theorem isZero_denotes {a : FieldElement} {x : ZMod prime} {most : ℕ} (denotes : Denotes most x a)
    (fits : most < 2 ^ 29) : isZero a = asMask (x = 0) := by
  rw [isZero_spec (denotes.below fits)]
  apply asMask_congr
  rw [← denotes.value, ← ZMod.intCast_eq_intCast_iff, Int.cast_zero]

theorem asMask_ne_zero_iff (condition : Prop) [Decidable condition] : asMask condition ≠ 0 ↔ condition := by
  unfold asMask
  split
  next holds => exact iff_of_true (by decide) holds
  next fails => exact iff_of_false (fun nonzero => nonzero rfl) fails

theorem asMask_eq_zero_iff (condition : Prop) [Decidable condition] : asMask condition = 0 ↔ ¬condition := by
  have opposite := not_congr (asMask_ne_zero_iff condition)
  rwa [ne_eq, not_not] at opposite

/-! ### Sums -/

section
variable {a b : Point} {t u : Jacobian (ZMod prime)}

theorem addDistinct_meets (left : PointDenotes inputBound t a) (right : PointDenotes inputBound u b)
    {z1z1 z2z2 u1 s1 h i j r : FieldElement} (z1z1_eq : Denotes reducedBound (t.z ^ 2) z1z1)
    (z2z2_eq : Denotes reducedBound (u.z ^ 2) z2z2) (u1_eq : Denotes reducedBound (t.x * u.z ^ 2) u1)
    (s1_eq : Denotes reducedBound (t.y * (u.z * u.z ^ 2)) s1) (h_eq : Denotes reducedBound (t.h u) h)
    (i_eq : Denotes reducedBound ((t.h u * (2 ^ 1 : ℕ)) ^ 2) i)
    (j_eq : Denotes reducedBound (t.h u * (t.h u * (2 ^ 1 : ℕ)) ^ 2) j) (r_eq : Denotes reducedBound (t.r u) r) :
    (addDistinct a b (asMask (t.z = 0)) (asMask (u.z = 0)) z1z1 z2z2 u1 s1 h i j r).Meets
      (PointDenotes inputBound (if t.z = 0 then u else if u.z = 0 then t else t.addDistinct u)) := by
  unfold addDistinct
  apply (shiftReduce_meets r_eq (by decide)).bind
  intro r1 r1_eq
  apply (mul_denotes u1_eq i_eq (by decide)).bind
  intro v v_eq
  apply (add_meets z1z1_eq z2z2_eq (by decide)).bind
  intro squares squares_eq
  apply (add_meets left.z right.z (by decide)).bind
  intro sum1 sum1_eq
  apply (reduce_denotes sum1_eq (by decide)).bind
  intro sum2 sum2_eq
  apply (square_denotes sum2_eq (by decide)).bind
  intro sum3 sum3_eq
  apply (subtractReduce_meets sum3_eq squares_eq (by decide) (by decide)).bind
  intro z1 z1_eq
  apply (mul_denotes z1_eq h_eq (by decide)).bind
  intro z z_eq
  apply (shiftLeft_meets v_eq (by decide)).bind
  intro v2 v2_eq
  apply (add_meets j_eq v2_eq (by decide)).bind
  intro jv jv_eq
  apply (reduce_denotes jv_eq (by decide)).bind
  intro jv2 jv2_eq
  apply (square_denotes r1_eq (by decide)).bind
  intro x1 x1_eq
  apply (subtractReduce_meets x1_eq jv2_eq (by decide) (by decide)).bind
  intro x x_eq
  apply (shiftLeft_meets s1_eq (by decide)).bind
  intro s2 s2_eq
  apply (mul_denotes s2_eq j_eq (by decide)).bind
  intro sj sj_eq
  apply (subtractReduce_meets v_eq x_eq (by decide) (by decide)).bind
  intro vx vx_eq
  apply (mul_denotes vx_eq r1_eq (by decide)).bind
  intro y1 y1_eq
  apply (subtractReduce_meets y1_eq sj_eq (by decide) (by decide)).bind
  intro y y_eq
  apply Meets.pure
  have distinct : PointDenotes reducedBound (t.addDistinct u) ⟨x, y, z⟩ := by
    constructor
    · convert x_eq using 1
      simp only [Jacobian.addDistinct]
      push_cast
      ring
    · convert y_eq using 1
      simp only [Jacobian.addDistinct]
      push_cast
      ring
    · exact z_eq
  rw [copyConditional_asMask, copyConditional_asMask]
  split
  next => exact right
  next =>
    split
    next => exact left
    next => exact distinct.mono (by decide)

theorem addJacobian_meets (left : PointDenotes inputBound t a) (right : PointDenotes inputBound u b) :
    (addJacobian a b).Meets (PointDenotes inputBound (t.add (-3) u)) := by
  unfold addJacobian
  apply (square_denotes left.z (by decide)).bind
  intro z1z1 z1z1_eq
  apply (square_denotes right.z (by decide)).bind
  intro z2z2 z2z2_eq
  apply (mul_denotes left.x z2z2_eq (by decide)).bind
  intro u1 u1_eq
  apply (mul_denotes right.x z1z1_eq (by decide)).bind
  intro u2 u2_eq
  apply (mul_denotes right.z z2z2_eq (by decide)).bind
  intro z2_cubed z2_cubed_eq
  apply (mul_denotes left.y z2_cubed_eq (by decide)).bind
  intro s1 s1_eq
  apply (mul_denotes left.z z1z1_eq (by decide)).bind
  intro z1_cubed z1_cubed_eq
  apply (mul_denotes right.y z1_cubed_eq (by decide)).bind
  intro s2 s2_eq
  apply (subtractReduce_meets u2_eq u1_eq (by decide) (by decide)).bind
  intro h h_eq
  apply (shiftReduce_meets h_eq (by decide)).bind
  intro i1 i1_eq
  apply (square_denotes i1_eq (by decide)).bind
  intro i i_eq
  apply (mul_denotes h_eq i_eq (by decide)).bind
  intro j j_eq
  apply (subtractReduce_meets s2_eq s1_eq (by decide) (by decide)).bind
  intro r r_eq
  have h_eq' : Denotes reducedBound (t.h u) h := h_eq
  have r_eq' : Denotes reducedBound (t.r u) r := by
    convert r_eq using 1
    rw [Jacobian.r]
    ring
  rw [isZero_denotes h_eq' (by decide), isZero_denotes r_eq' (by decide), isZero_denotes left.z (by decide),
    isZero_denotes right.z (by decide)]
  simp only [asMask_ne_zero_iff, asMask_eq_zero_iff]
  split
  next same =>
    obtain ⟨level, equal, finite, finite'⟩ := same
    rw [Jacobian.add, if_neg finite, if_neg finite', if_pos ⟨level, equal⟩]
    exact (doubleJacobian_meets left).mono fun _ denotes => denotes.mono (by decide)
  next different =>
    apply (addDistinct_meets left right z1z1_eq z2z2_eq u1_eq s1_eq h_eq' i_eq j_eq r_eq').mono
    intro p denotes
    convert denotes using 1
    unfold Jacobian.add
    by_cases finite : t.z = 0
    · rw [if_pos finite, if_pos finite]
    by_cases finite' : u.z = 0
    · rw [if_neg finite, if_neg finite, if_pos finite', if_pos finite']
    · have apart : ¬(t.h u = 0 ∧ t.r u = 0) := fun both => different ⟨both.1, both.2, finite, finite'⟩
      rw [if_neg finite, if_neg finite, if_neg finite', if_neg finite', if_neg apart]

/-! ### Multiples -/

/-- The bits of a byte, the most significant one first. -/
def bitsOfByte (byte : BitVec 8) : List Bool := (List.range 8).map fun bit_num => byte.getLsbD (7 - bit_num)

theorem bitMask_eq (byte : BitVec 8) {bit_num : ℕ} (inside : bit_num < 8) :
    bitMask byte bit_num = asMask (byte.getLsbD (7 - bit_num) = true) := by
  have one : (1 : BitVec 32).getLsbD 0 = true := by decide
  rw [bitMask, signMask_lowest]
  apply asMask_congr
  rw [BitVec.getLsbD_and, one, Bool.and_true, BitVec.getLsbD_ushiftRight, BitVec.getLsbD_setWidth, Nat.add_zero,
    decide_eq_true (by omega), Bool.true_and]

theorem scalarMultStep_meets (left : PointDenotes inputBound t a) {out : Point} {v : Jacobian (ZMod prime)}
    (denotes : PointDenotes inputBound v out) (byte : BitVec 8) {bit_num : ℕ} (inside : bit_num < 8) :
    (scalarMultStep a byte out bit_num).Meets
      (PointDenotes inputBound (t.multStep (-3) v (byte.getLsbD (7 - bit_num)))) := by
  unfold scalarMultStep
  apply (doubleJacobian_meets denotes).bind
  intro doubled doubled_eq
  have doubled_eq' := doubled_eq.mono (show reducedBound ≤ inputBound by decide)
  apply (addJacobian_meets left doubled_eq').bind
  intro tmp tmp_eq
  apply Meets.pure
  rw [bitMask_eq byte inside, copyConditional_asMask, Jacobian.multStep]
  split
  next => exact tmp_eq
  next => exact doubled_eq'

theorem byte_meets (left : PointDenotes inputBound t a) (byte : BitVec 8) {list : List ℕ} (inside : ∀ i ∈ list, i < 8)
    {out : Point} {v : Jacobian (ZMod prime)} (denotes : PointDenotes inputBound v out) :
    (list.foldlM (scalarMultStep a byte) out).Meets (PointDenotes inputBound
      ((list.map fun bit_num => byte.getLsbD (7 - bit_num)).foldl (t.multStep (-3)) v)) := by
  induction list generalizing out v with
  | nil => exact Meets.pure denotes
  | cons bit_num list ih =>
    rw [List.foldlM_cons]
    apply (scalarMultStep_meets left denotes byte (inside bit_num List.mem_cons_self)).bind
    intro next next_eq
    exact ih (fun i member => inside i (List.mem_cons_of_mem bit_num member)) next_eq

theorem scalarMult_meets (left : PointDenotes inputBound t a) (scalar : List (BitVec 8)) :
    (scalarMult a scalar).Meets (PointDenotes inputBound (t.scalarMult (-3) (scalar.flatMap bitsOfByte))) := by
  have run : ∀ (scalar : List (BitVec 8)) {out : Point} {v : Jacobian (ZMod prime)}, PointDenotes inputBound v out →
      (scalar.foldlM (fun out byte => (List.range 8).foldlM (scalarMultStep a byte) out) out).Meets
        (PointDenotes inputBound ((scalar.flatMap bitsOfByte).foldl (t.multStep (-3)) v)) := by
    intro scalar
    induction scalar with
    | nil => exact fun denotes => Meets.pure denotes
    | cons byte scalar ih =>
      intro out v denotes
      rw [List.foldlM_cons, List.flatMap_cons, List.foldl_append]
      apply (byte_meets left byte (fun _ => List.mem_range.mp) denotes).bind
      intro next next_eq
      exact ih next_eq
  have zero : Denotes inputBound 0 (fun _ => 0) := ⟨fun _ => Nat.zero_le _, by decide⟩
  exact run scalar ⟨zero, zero, zero⟩

end

/-! ### Bounds -/

/-- All limbs are below `2 ^ 29`. -/
def Point.Bounded (p : Point) : Prop := Below p.x (2 ^ 29) ∧ Below p.y (2 ^ 29) ∧ Below p.z (2 ^ 29)

instance (p : Point) : Decidable p.Bounded := by
  unfold Point.Bounded
  infer_instance

/-- The field elements of the coordinates. -/
def Point.triple (p : Point) : Jacobian (ZMod prime) := ⟨valueOf p.x, valueOf p.y, valueOf p.z⟩

theorem Point.Bounded.denotes {p : Point} (bounded : p.Bounded) : PointDenotes inputBound p.triple p :=
  ⟨denotes_of_below bounded.1, denotes_of_below bounded.2.1, denotes_of_below bounded.2.2⟩

theorem PointDenotes.bounded {bound : ℕ} {t : Jacobian (ZMod prime)} {p : Point} (denotes : PointDenotes bound t p)
    (le : bound ≤ inputBound) : p.Bounded := by
  have less : bound < 2 ^ 29 := Nat.lt_of_le_of_lt le (by decide)
  exact ⟨denotes.x.below less, denotes.y.below less, denotes.z.below less⟩

/-- No step of the point formulas wraps around, every product has operands within its bounds, and the results are as
bounded as the inputs, however long the scalar is. -/
theorem formulas_bounded {a b : Point} (left : a.Bounded) (right : b.Bounded) (scalar : List (BitVec 8)) :
    (addJacobian a b).Meets Point.Bounded ∧ (doubleJacobian a).Meets Point.Bounded ∧
      (scalarMult a scalar).Meets Point.Bounded := by
  apply And.intro
  · exact (addJacobian_meets left.denotes right.denotes).mono fun _ denotes => denotes.bounded (Nat.le_refl _)
  apply And.intro
  · exact (doubleJacobian_meets left.denotes).mono fun _ denotes => denotes.bounded (by decide)
  · exact (scalarMult_meets left.denotes scalar).mono fun _ denotes => denotes.bounded (Nat.le_refl _)

/-- The greatest limbs. -/
theorem formulas_bounded_greatest :
    let greatest : FieldElement := fun _ => 2 ^ 29 - 1
    let p : Point := ⟨greatest, greatest, greatest⟩
    (addJacobian p p).Meets Point.Bounded ∧ (doubleJacobian p).Meets Point.Bounded ∧
      (scalarMult p (List.replicate 28 0xff)).Meets Point.Bounded :=
  formulas_bounded (by decide) (by decide) _

/-! The point functions compute the group of the curve `y² = x³ - 3x + b`. -/

/-- The coefficient of the curve. -/
def coefficient : ZMod prime := (valueOf kB : ZMod prime)

/-- The instance of the literal in the equation. -/
local instance three_atLeastTwo : Nat.AtLeastTwo 3 := ⟨by decide⟩

/-- The curve, FIPS 186-3, section D.2.2. -/
abbrev curve : WeierstrassCurve.Affine (ZMod prime) := shortWeierstrass (-3) coefficient

theorem curve_smooth : curve.Δ ≠ 0 := by
  have discriminant : curve.Δ = ((-16 * (-108 + 27 * valueOf kB ^ 2) : ℤ) : ZMod prime) := by
    simp only [WeierstrassCurve.Δ, WeierstrassCurve.b₂, WeierstrassCurve.b₄, WeierstrassCurve.b₆, WeierstrassCurve.b₈,
      coefficient]
    push_cast
    ring
  rw [discriminant, ne_eq, ZMod.intCast_zmod_eq_zero_iff_dvd]
  decide

/-- Limbs below `2 ^ 29` that stand for a point of the curve. -/
structure Point.Represents (p : Point) (point : curve.Point) : Prop where
  bounded : p.Bounded
  represents : p.triple.Represents point

theorem two_ne_zero' : (2 : ZMod prime) ≠ 0 := by
  intro zero
  have divides : prime ∣ 2 := (ZMod.natCast_eq_zero_iff 2 prime).mp zero
  exact absurd (Nat.le_of_dvd (by decide) divides) (by decide)

theorem PointDenotes.triple_eq {bound : ℕ} {t : Jacobian (ZMod prime)} {p : Point} (denotes : PointDenotes bound t p) :
    p.triple = t := Jacobian.ext denotes.x.value denotes.y.value denotes.z.value

/-- A result that stands for a triple represents what the triple does. -/
theorem PointDenotes.represents {bound : ℕ} {t : Jacobian (ZMod prime)} {p : Point} {point : curve.Point}
    (denotes : PointDenotes bound t p) (le : bound ≤ inputBound) (represents : t.Represents point) :
    p.Represents point := by
  rw [← denotes.triple_eq] at represents
  exact ⟨denotes.bounded le, represents⟩

theorem doubleJacobian_represents {a : Point} {point : curve.Point} (represents : a.Represents point) :
    (doubleJacobian a).Meets fun out => out.Represents (point + point) :=
  (doubleJacobian_meets represents.bounded.denotes).mono fun _ denotes =>
    denotes.represents (by decide) (Jacobian.represents_double two_ne_zero' represents.represents)

theorem addJacobian_represents {a b : Point} {point other : curve.Point} (left : a.Represents point)
    (right : b.Represents other) : (addJacobian a b).Meets fun out => out.Represents (point + other) :=
  (addJacobian_meets left.bounded.denotes right.bounded.denotes).mono fun _ denotes =>
    denotes.represents (Nat.le_refl _) (Jacobian.represents_add two_ne_zero' left.represents right.represents)

theorem scalarMult_represents {a : Point} {point : curve.Point} (represents : a.Represents point)
    (scalar : List (BitVec 8)) : (scalarMult a scalar).Meets fun out =>
      out.Represents (Jacobian.ofBits (scalar.flatMap bitsOfByte) • point) :=
  (scalarMult_meets represents.bounded.denotes scalar).mono fun _ denotes =>
    denotes.represents (Nat.le_refl _) (Jacobian.represents_scalarMult two_ne_zero' represents.represents _)

/-! ### The base point -/

/-- A point with `z = 1` whose coordinates satisfy the equation. -/
theorem exists_represents {x y z : FieldElement} (bounded : Point.Bounded ⟨x, y, z⟩) (unit : valueOf z = 1)
    (on : (valueOf y : ZMod prime) ^ 2 = (valueOf x : ZMod prime) ^ 3 + -3 * (valueOf x : ZMod prime) + coefficient) :
    ∃ point, Point.Represents ⟨x, y, z⟩ point := by
  obtain ⟨point, represents⟩ := Jacobian.represents_affine curve_smooth on
  apply Exists.intro point
  constructor
  · exact bounded
  · rw [Point.triple, unit, Int.cast_one]
    exact represents

theorem kBasePoint_represents : ∃ point, kBasePoint.Represents point := by
  apply exists_represents (by decide) (by decide)
  have on : valueOf kBasePoint.y ^ 2 ≡ valueOf kBasePoint.x ^ 3 + -3 * valueOf kBasePoint.x + valueOf kB
    [ZMOD prime] := by decide
  have cast := (ZMod.intCast_eq_intCast_iff _ _ _).mpr on
  push_cast at cast
  exact cast

/-! ### Sums and multiples -/

/-- Whatever Jacobian forms the inputs are in, the functions compute the sum, the double and the multiple. -/
theorem arithmetic_represents {a b : Point} {point other : curve.Point} (left : a.Represents point)
    (right : b.Represents other) (scalar : List (BitVec 8)) :
    ((addJacobian a b).Meets fun out => out.Represents (point + other)) ∧
      ((doubleJacobian a).Meets fun out => out.Represents (point + point)) ∧
      (scalarMult a scalar).Meets fun out =>
        out.Represents (Jacobian.ofBits (scalar.flatMap bitsOfByte) • point) :=
  ⟨addJacobian_represents left right, doubleJacobian_represents left, scalarMult_represents left scalar⟩

/-- The base point, added to itself and multiplied. -/
theorem arithmetic_represents_base : ∃ point, kBasePoint.Represents point ∧
    ((addJacobian kBasePoint kBasePoint).Meets fun out => out.Represents (point + point)) ∧
      ((doubleJacobian kBasePoint).Meets fun out => out.Represents (point + point)) ∧
      (scalarMult kBasePoint [3]).Meets fun out =>
        out.Represents (Jacobian.ofBits ([3].flatMap bitsOfByte) • point) := by
  obtain ⟨point, represents⟩ := kBasePoint_represents
  exact ⟨point, represents, arithmetic_represents represents represents [3]⟩

end Libchrome.Crypto.P224
