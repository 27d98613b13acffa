import Mathlib.NumberTheory.LucasPrimality
import Mathlib.Tactic.NormNum.Prime
import Mathlib.Tactic.ReduceModChar
import Libchrome.Crypto.P224.Multiplication
import Mathlib.Data.ZMod.Basic

/-! The modulus of P-224 is a prime, by Lucas' test. -/

namespace Libchrome.Crypto.P224

theorem mem_of_dvd {factors : List ℕ} (primes : ∀ factor ∈ factors, factor.Prime) {q number : ℕ} (is_prime : q.Prime)
    (divides : q ∣ number) (product : factors.prod = number) : q ∈ factors := by
  rw [← product] at divides
  exact mem_list_primes_of_dvd_prod is_prime.prime (fun factor member => (primes factor member).prime) divides

theorem prime_factor : Nat.Prime 67280421310721 := by
  have primes : ∀ factor ∈ List.replicate 8 2 ++ [5, 47, 373, 2998279], Nat.Prime factor := by
    simp only [List.forall_mem_append, List.forall_mem_cons, List.mem_replicate]
    norm_num
  apply lucas_primality 67280421310721 3 (by reduce_mod_char)
  intro q is_prime divides
  have member := mem_of_dvd primes is_prime divides (by norm_num)
  simp only [List.mem_append, List.mem_replicate, List.mem_cons, List.not_mem_nil, or_false] at member
  rcases member with ⟨-, rfl⟩ | rfl | rfl | rfl | rfl
  all_goals
    norm_num
    reduce_mod_char
    decide +kernel

theorem prime_prime : Nat.Prime prime := by
  have primes : ∀ factor ∈ List.replicate 96 2 ++ [3, 5, 17, 257, 641, 65537, 274177, 6700417, 67280421310721],
      Nat.Prime factor := by
    simp only [List.forall_mem_append, List.forall_mem_cons, List.mem_replicate, prime_factor]
    norm_num
  have literal : prime = 26959946667150639794667015087019630673557916260026308143510066298881 := by
    norm_num [prime]
  rw [literal]
  apply lucas_primality _ 22 (by norm_num; reduce_mod_char)
  intro q is_prime divides
  have member := mem_of_dvd primes is_prime divides (by norm_num)
  simp only [List.mem_append, List.mem_replicate, List.mem_cons, List.not_mem_nil, or_false] at member
  rcases member with ⟨-, rfl⟩ | rfl | rfl | rfl | rfl | rfl | rfl | rfl | rfl | rfl
  all_goals
    norm_num
    reduce_mod_char
    decide +kernel

instance : Fact prime.Prime := ⟨prime_prime⟩

/-! Limbs that stand for an element of the field: what each operation makes of the element and of the limbs' bound. -/

open Function Library Audited Limbs

/-- The limbs are at most `bound` and stand for `x`. -/
structure Denotes (bound : ℕ) (x : ZMod prime) (a : FieldElement) : Prop where
  most : ∀ j, (a j).toNat ≤ bound
  value : (valueOf a : ZMod prime) = x

variable {a b : FieldElement} {x y : ZMod prime} {most most' : ℕ}

theorem Denotes.mono (denotes : Denotes most x a) (le : most ≤ most') : Denotes most' x a :=
  ⟨fun j => (denotes.most j).trans le, denotes.value⟩

theorem Denotes.below {bound : ℕ} (denotes : Denotes most x a) (less : most < bound) : Below a bound :=
  fun j => (denotes.most j).trans_lt less

/-- Any limbs below `2 ^ 29` stand for their value. -/
theorem denotes_of_below (below : Below a (2 ^ 29)) : Denotes (2 ^ 29 - 1) (valueOf a) a :=
  ⟨fun j => Nat.le_sub_one_of_lt (below j), rfl⟩

theorem denotes_of_modEq {value : ℤ} (congruent : valueOf a ≡ value [ZMOD prime]) (bounds : ∀ j, (a j).toNat ≤ most) :
    Denotes most (value : ZMod prime) a :=
  ⟨bounds, (ZMod.intCast_eq_intCast_iff _ _ _).mpr congruent⟩

theorem add_meets (left : Denotes most x a) (right : Denotes most' y b) (fits : most + most' < 2 ^ 32) :
    (add a b).Meets (Denotes (most + most') (x + y)) := by
  have sums (i : Fin 8) := Meets.plus (Nat.lt_of_le_of_lt (Nat.add_le_add (left.most i) (right.most i)) fits)
  apply (Meets.each sums).mono
  intro sum sum_eq
  constructor
  · intro j
    rw [sum_eq j]
    exact Nat.add_le_add (left.most j) (right.most j)
  · have parts : limbs sum = fun i => limbs a i + limbs b i := by
      funext i
      rw [limbs, sum_eq i, Nat.cast_add, limbs, limbs]
    rw [valueOf, parts, number_add, Int.cast_add]
    exact congrArg₂ _ left.value right.value

theorem valueOf_kZero31ModP : ((valueOf kZero31ModP : ℤ) : ZMod prime) = 0 := by
  have zero : valueOf kZero31ModP ≡ 0 [ZMOD prime] := by decide
  rw [(ZMod.intCast_eq_intCast_iff _ _ _).mpr zero, Int.cast_zero]

theorem kZero31ModP_bounds :
    ∀ i, 2 ^ 31 - 2 ^ 15 - 2 ^ 3 ≤ (kZero31ModP i).toNat ∧ (kZero31ModP i).toNat ≤ 2 ^ 31 + 2 ^ 3 := by decide

theorem subtract_meets (left : Denotes most x a) (right : Denotes most' y b) (fits : most + (2 ^ 31 + 2 ^ 3) < 2 ^ 32)
    (fits' : most' ≤ 2 ^ 31 - 2 ^ 15 - 2 ^ 3) :
    (subtract a b).Meets (Denotes (most + (2 ^ 31 + 2 ^ 3)) (x - y)) := by
  have differences (i : Fin 8) : (do
      let sum ← plus (a i) (kZero31ModP i)
      minus sum (b i)).Meets fun difference =>
        difference.toNat = (a i).toNat + (kZero31ModP i).toNat - (b i).toNat := by
    have bounds := kZero31ModP_bounds i
    have least := left.most i
    have least' := right.most i
    apply (Meets.plus (x := a i) (y := kZero31ModP i) (by omega)).bind
    intro sum sum_eq
    rw [← sum_eq]
    exact Meets.minus (by omega)
  apply (Meets.each differences).mono
  intro difference difference_eq
  constructor
  · intro j
    have bounds := kZero31ModP_bounds j
    have least := left.most j
    rw [difference_eq j]
    omega
  · have parts : limbs difference = fun i => limbs a i + limbs kZero31ModP i - limbs b i := by
      funext i
      have bounds := kZero31ModP_bounds i
      have least' := right.most i
      rw [limbs, difference_eq i, limbs, limbs, limbs]
      omega
    rw [valueOf, parts, number_sub, number_add, Int.cast_sub, Int.cast_add]
    have zero := valueOf_kZero31ModP
    rw [valueOf] at zero
    rw [zero, add_zero]
    exact congrArg₂ _ left.value right.value

section
variable (denotes : Denotes most x a)
include denotes

/-- A loop that multiplies every limb. -/
theorem denotes_multiple {product : FieldElement} {factor : ℕ}
    (products : ∀ i, (product i).toNat = (a i).toNat * factor) : Denotes (most * factor) (x * factor) product := by
  constructor
  · intro j
    rw [products j]
    exact Nat.mul_le_mul_right factor (denotes.most j)
  · have parts : limbs product = fun i => limbs a i * factor := by
      funext i
      rw [limbs, products i, Nat.cast_mul, limbs]
    rw [valueOf, parts, number_mul, Int.cast_mul, Int.cast_natCast]
    exact congrArg (· * (factor : ZMod prime)) denotes.value

theorem shiftLeft_meets {count : ℕ} (fits : most * 2 ^ count < 2 ^ 32) :
    (shiftLeft a count).Meets (Denotes (most * 2 ^ count) (x * (2 ^ count : ℕ))) := by
  have shifts (i : Fin 8) := Meets.shifted ((Nat.mul_le_mul_right (2 ^ count) (denotes.most i)).trans_lt fits)
  exact (Meets.each shifts).mono fun _ => denotes_multiple denotes

theorem addDouble_meets (fits : most * 3 < 2 ^ 32) :
    (addDouble a).Meets (Denotes (most * 3) (x * (3 : ℕ))) := by
  have triples (i : Fin 8) : (do
      let double ← shifted (a i) 1
      plus (a i) double).Meets fun triple => triple.toNat = (a i).toNat * 3 := by
    have bound := denotes.most i
    apply (@Meets.shifted _ (a i) 1 (by omega)).bind
    intro double double_eq
    have meets := Meets.plus (x := a i) (y := double) (by omega)
    rwa [double_eq, show (a i).toNat + (a i).toNat * 2 ^ 1 = (a i).toNat * 3 by omega] at meets
  exact (Meets.each triples).mono fun _ => denotes_multiple denotes

theorem timesThree_meets (fits : most * 3 < 2 ^ 32) :
    (timesThree a).Meets (Denotes (most * 3) (x * (3 : ℕ))) := by
  have triples (i : Fin 8) := Meets.times (x := a i) (y := 3) ((Nat.mul_le_mul_right 3 (denotes.most i)).trans_lt fits)
  exact (Meets.each triples).mono fun _ => denotes_multiple denotes

end

/-- The bound of the limbs that `Reduce`, `Mul` and `Square` leave. -/
def reducedBound : ℕ := 2 ^ 29 - 2

theorem reduce_denotes (denotes : Denotes most x a) (fits : most ≤ 2 ^ 32 - 16) :
    (reduce a).Meets (Denotes reducedBound x) := by
  apply (reduce_meets fun j => (denotes.most j).trans fits).mono
  rintro b ⟨congruent, bounds⟩
  rw [← denotes.value]
  exact denotes_of_modEq congruent bounds

theorem mul_denotes (left : Denotes most x a) (right : Denotes most' y b)
    (fits : most < 2 ^ 29 ∧ most' < 2 ^ 30 ∨ most < 2 ^ 30 ∧ most' < 2 ^ 29) :
    (mul a b).Meets (Denotes reducedBound (x * y)) := by
  have below := fits.imp (fun both => And.intro (left.below both.1) (right.below both.2))
    (fun both => And.intro (left.below both.1) (right.below both.2))
  apply (mul_meets below).mono
  rintro product ⟨congruent, bounds⟩
  rw [← left.value, ← right.value, ← Int.cast_mul]
  exact denotes_of_modEq congruent bounds

theorem square_denotes (denotes : Denotes most x a) (fits : most < 2 ^ 29) :
    (square a).Meets (Denotes reducedBound (x ^ 2)) := by
  apply (square_meets (denotes.below fits)).mono
  rintro product ⟨congruent, bounds⟩
  rw [← denotes.value, pow_two, ← Int.cast_mul]
  exact denotes_of_modEq congruent bounds

theorem subtractReduce_meets (left : Denotes most x a) (right : Denotes most' y b)
    (fits : most ≤ 2 ^ 31 - 24) (fits' : most' ≤ 2 ^ 31 - 2 ^ 15 - 2 ^ 3) :
    (subtractReduce a b).Meets (Denotes reducedBound (x - y)) :=
  (subtract_meets left right (by omega) fits').bind fun _ denotes => reduce_denotes denotes (by omega)

theorem shiftReduce_meets {count : ℕ} (denotes : Denotes most x a) (fits : most * 2 ^ count ≤ 2 ^ 32 - 16) :
    (shiftReduce a count).Meets (Denotes reducedBound (x * (2 ^ count : ℕ))) :=
  (shiftLeft_meets denotes (by omega)).bind fun _ denotes' => reduce_denotes denotes' fits

end Libchrome.Crypto.P224
