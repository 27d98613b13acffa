import Mathlib.Algebra.Ring.Int.Defs
import Mathlib.Algebra.Ring.Nat

/-!
# Integers of a fixed width

A word read as a signed or an unsigned integer, the integers that fit a width, and bounds on a
product in terms of truncated quotients.
-/

namespace Libchrome.Library

/-- The integer that a word stands for. -/
def intOf (signed : Bool) {w : Nat} (word : BitVec w) : Int :=
  if signed then word.toInt else word.toNat

def lowest (signed : Bool) (w : Nat) : Int :=
  if signed then -2 ^ (w - 1) else 0

def highest (signed : Bool) (w : Nat) : Int :=
  if signed then 2 ^ (w - 1) - 1 else 2 ^ w - 1

/-- The integers that a word can stand for. -/
def Fits (signed : Bool) (w : Nat) (n : Int) : Prop :=
  lowest signed w ≤ n ∧ n ≤ highest signed w

instance (signed : Bool) (w : Nat) (n : Int) : Decidable (Fits signed w n) :=
  inferInstanceAs (Decidable (_ ∧ _))

variable {signed : Bool} {w : Nat}

theorem fits_intOf (word : BitVec w) : Fits signed w (intOf signed word) := by
  cases signed with
  | false =>
    have bound := word.isLt
    simp only [Fits, intOf, lowest, highest, Bool.false_eq_true, if_false]
    refine ⟨Int.natCast_nonneg _, Int.le_sub_one_of_lt ?_⟩
    exact_mod_cast bound
  | true =>
    have below := word.le_toInt
    have above := word.toInt_lt
    simp only [Fits, intOf, lowest, highest, if_true]
    exact ⟨below, Int.le_sub_one_of_lt above⟩

theorem intOf_ofInt {n : Int} (positive : 0 < w) (fits : Fits signed w n) :
    intOf signed (BitVec.ofInt w n) = n := by
  cases signed with
  | false =>
    simp only [Fits, intOf, lowest, highest, Bool.false_eq_true, if_false] at fits ⊢
    have bound : n < ((2 ^ w : Nat) : Int) := by
      push_cast
      exact Int.lt_of_le_sub_one fits.2
    rw [BitVec.toNat_ofInt, Int.emod_eq_of_lt fits.1 bound, Int.toNat_of_nonneg fits.1]
  | true =>
    simp only [Fits, intOf, lowest, highest, if_true] at fits ⊢
    exact BitVec.toInt_ofInt_eq_self positive fits.1 (Int.lt_of_le_sub_one fits.2)

theorem ofInt_intOf (word : BitVec w) : BitVec.ofInt w (intOf signed word) = word := by
  cases signed with
  | false =>
    simp only [intOf, Bool.false_eq_true, if_false]
    rw [BitVec.ofInt_natCast, BitVec.ofNat_toNat, BitVec.setWidth_eq]
  | true => exact BitVec.ofInt_toInt

/-- What an operation on words computes modulo the width is exact where it fits. -/
theorem intOf_eq {word : BitVec w} {n : Int} (positive : 0 < w) (same : word = BitVec.ofInt w n)
    (fits : Fits signed w n) : intOf signed word = n :=
  same ▸ intOf_ofInt positive fits

theorem add_eq_ofInt (signed : Bool) (x y : BitVec w) :
    x + y = BitVec.ofInt w (intOf signed x + intOf signed y) := by
  rw [BitVec.ofInt_add, ofInt_intOf, ofInt_intOf]

theorem neg_eq_ofInt (signed : Bool) (x : BitVec w) : -x = BitVec.ofInt w (-intOf signed x) := by
  rw [BitVec.ofInt_neg, ofInt_intOf]

theorem sub_eq_ofInt (signed : Bool) (x y : BitVec w) :
    x - y = BitVec.ofInt w (intOf signed x - intOf signed y) := by
  rw [BitVec.sub_eq_add_neg, Int.sub_eq_add_neg, BitVec.ofInt_add, BitVec.ofInt_neg, ofInt_intOf, ofInt_intOf]

theorem mul_eq_ofInt (signed : Bool) (x y : BitVec w) :
    x * y = BitVec.ofInt w (intOf signed x * intOf signed y) := by
  rw [BitVec.ofInt_mul, ofInt_intOf, ofInt_intOf]

section Quotients

variable {x y bound : Int}

theorem le_tdiv_iff (nonneg : 0 ≤ bound) (positive : 0 < y) : x ≤ bound.tdiv y ↔ x * y ≤ bound := by
  rw [Int.tdiv_eq_ediv_of_nonneg nonneg, Int.le_ediv_iff_mul_le positive]

/-- The quotient of a negative number is rounded up. -/
theorem tdiv_le_iff (nonpos : bound ≤ 0) (positive : 0 < y) : bound.tdiv y ≤ x ↔ bound ≤ x * y := by
  have mirrored : -x ≤ (-bound).tdiv y ↔ -x * y ≤ -bound := le_tdiv_iff (by omega) positive
  rw [Int.neg_tdiv, Int.neg_mul] at mirrored
  omega

theorem tdiv_le_iff_of_neg (nonneg : 0 ≤ bound) (negative : y < 0) : bound.tdiv y ≤ x ↔ x * y ≤ bound := by
  have mirrored : -x ≤ bound.tdiv (-y) ↔ -x * -y ≤ bound := le_tdiv_iff nonneg (by omega)
  rw [Int.tdiv_neg, Int.neg_mul_neg] at mirrored
  omega

end Quotients

end Libchrome.Library
