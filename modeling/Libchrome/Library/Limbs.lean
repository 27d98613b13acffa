import Mathlib.Algebra.BigOperators.Fin
import Mathlib.Algebra.BigOperators.Ring.Finset
import Mathlib.Algebra.Order.BigOperators.Group.Finset
import Mathlib.Data.Int.ModEq
import Mathlib.Tactic.LinearCombination
import Mathlib.Tactic.Ring

/-! Numbers as limbs, which may be negative or exceed the radix. -/

namespace Libchrome.Library.Limbs
open Function

variable {n : ℕ} (w : ℕ)

/-- The number with these limbs, of which each weighs `2 ^ w` times the one before. -/
def number (limbs : Fin n → ℤ) : ℤ := ∑ i, limbs i * 2 ^ (w * i.val)

variable {w}

theorem number_update (limbs : Fin n → ℤ) (i : Fin n) (limb : ℤ) :
    number w (update limbs i limb) = number w limbs + (limb - limbs i) * 2 ^ (w * i.val) := by
  have away : ∀ j ∈ Finset.univ.erase i, update limbs i limb j * 2 ^ (w * j.val) = limbs j * 2 ^ (w * j.val) := by
    intro j other
    rw [update_of_ne (Finset.ne_of_mem_erase other)]
  rw [number, number, ← Finset.add_sum_erase _ _ (Finset.mem_univ i), ← Finset.add_sum_erase _ _ (Finset.mem_univ i),
    Finset.sum_congr rfl away, update_self]
  ring

theorem number_add (former latter : Fin n → ℤ) :
    number w (fun i => former i + latter i) = number w former + number w latter := by
  simp only [number, add_mul, Finset.sum_add_distrib]

theorem number_sub (former latter : Fin n → ℤ) :
    number w (fun i => former i - latter i) = number w former - number w latter := by
  simp only [number, sub_mul, Finset.sum_sub_distrib]

theorem number_mul (factor : ℤ) (limbs : Fin n → ℤ) :
    number w (fun i => limbs i * factor) = number w limbs * factor := by
  simp only [number, Finset.sum_mul, mul_right_comm]

theorem number_zero : number w (fun _ : Fin n => 0) = 0 := by
  simp only [number, zero_mul, Finset.sum_const_zero]

/-- A multiple of the radix moves from one limb to the next. -/
theorem number_carry (limbs : Fin n → ℤ) {i j : Fin n} (next : j.val = i.val + 1) (carried : ℤ) :
    number w (update (update limbs j (limbs j + carried)) i (limbs i - carried * 2 ^ w)) = number w limbs := by
  have apart : i ≠ j := by
    rintro rfl
    omega
  rw [number_update, number_update, update_of_ne apart, next, mul_add, mul_one, pow_add]
  ring

/-- The limbs below a place. -/
def lower (count : ℕ) (limbs : Fin n → ℤ) : Fin n → ℤ := fun i => if i.val < count then limbs i else 0

section
variable (limbs : Fin n → ℤ)
include limbs

theorem lower_all : lower n limbs = limbs := by
  funext i
  exact if_pos i.isLt

theorem lower_succ (i : Fin n) : lower (i + 1) limbs = update (lower i limbs) i (limbs i) := by
  funext j
  by_cases same : j = i
  · rw [same, update_self, lower, if_pos (Nat.lt_succ_self _)]
  · have different : j.val ≠ i.val := fun equal => same (Fin.ext equal)
    rw [update_of_ne same, lower, lower]
    simp only [show j.val < i.val + 1 ↔ j.val < i.val by omega]

theorem lower_self (i : Fin n) : lower i limbs i = 0 := if_neg (Nat.lt_irrefl _)

theorem number_lower_succ (i : Fin n) :
    number w (lower (i + 1) limbs) = number w (lower i limbs) + limbs i * 2 ^ (w * i.val) := by
  rw [lower_succ, number_update, lower_self, sub_zero]

theorem lower_update_of_lt {count : ℕ} {i : Fin n} (inside : i.val < count) (limb : ℤ) :
    lower count (update limbs i limb) = update (lower count limbs) i limb := by
  funext j
  by_cases same : j = i
  · rw [same, update_self, lower, if_pos inside, update_self]
  · rw [update_of_ne same, lower, lower, update_of_ne same]

theorem lower_update_of_le {count : ℕ} {i : Fin n} (outside : count ≤ i.val) (limb : ℤ) :
    lower count (update limbs i limb) = lower count limbs := by
  funext j
  by_cases inside : j.val < count
  · have different : j ≠ i := fun same => by
      rw [same] at inside
      omega
    rw [lower, lower, update_of_ne different]
  · rw [lower, lower, if_neg inside, if_neg inside]

end

end Libchrome.Library.Limbs
