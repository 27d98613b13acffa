import Libchrome.Crypto.P224.Reduction

/-! `Mul` and `Square` never wrap around and yield the product. -/

namespace Libchrome.Crypto.P224
open Function Library Audited Limbs

/-- A step that adds a term to its column. -/
def AddsTo (step : LargeFieldElement → Fin 8 → Audited LargeFieldElement) (i : Fin 8) (term : Fin 8 → ℕ) : Prop :=
  ∀ tmp j, (tmp (column i j)).toNat + term j < 2 ^ 64 → (step tmp j).Meets fun after =>
    (after (column i j)).toNat = (tmp (column i j)).toNat + term j ∧ ∀ k, k ≠ column i j → after k = tmp k

theorem number_of_added {tmp after : LargeFieldElement} {k : Fin 15} {term : ℕ}
    (here : (after k).toNat = (tmp k).toNat + term) (others : ∀ j, j ≠ k → after j = tmp j) :
    number 28 (limbs after) = number 28 (limbs tmp) + term * 2 ^ (28 * k.val) := by
  have same : limbs after = update (limbs tmp) k (limbs tmp k + term) := by
    funext j
    by_cases equal : j = k
    · rw [equal, update_self, limbs, here, Nat.cast_add, limbs]
    · rw [update_of_ne equal, limbs, others j equal, limbs]
  rw [same, number_update, add_sub_cancel_left]

theorem column_injective {i j j' : Fin 8} (same : column i j = column i j') : j = j' := by
  have values := congrArg Fin.val same
  exact Fin.ext (Nat.add_left_cancel values)

/-- What the terms of a row amount to. -/
def rowValue (i : Fin 8) (term : Fin 8 → ℕ) (row : List (Fin 8)) : ℤ :=
  (row.map fun j => (term j : ℤ) * 2 ^ (28 * (i.val + j.val))).sum

theorem rowValue_cons (i : Fin 8) (term : Fin 8 → ℕ) (j : Fin 8) (row : List (Fin 8)) :
    rowValue i term (j :: row) = term j * 2 ^ (28 * (i.val + j.val)) + rowValue i term row := by
  rw [rowValue, List.map_cons, List.sum_cons, rowValue]

theorem row_meets {step : LargeFieldElement → Fin 8 → Audited LargeFieldElement} {i : Fin 8} {term : Fin 8 → ℕ}
    (adds : AddsTo step i term) {bound : ℕ} (small : ∀ j, term j ≤ bound) {row : List (Fin 8)} (nodup : row.Nodup)
    {tmp : LargeFieldElement} (fits : ∀ j ∈ row, (tmp (column i j)).toNat + bound < 2 ^ 64) :
    (row.foldlM step tmp).Meets fun after =>
      number 28 (limbs after) = number 28 (limbs tmp) + rowValue i term row ∧
      (∀ k, (∀ j ∈ row, k ≠ column i j) → after k = tmp k) ∧ ∀ k, (after k).toNat ≤ (tmp k).toNat + bound := by
  induction row generalizing tmp with
  | nil => exact Meets.pure ⟨by rw [rowValue, List.map_nil, List.sum_nil, add_zero], fun _ _ => rfl,
      fun _ => Nat.le_add_right _ _⟩
  | cons j row ih =>
    obtain ⟨fresh, nodup⟩ := List.nodup_cons.mp nodup
    have room := fits j List.mem_cons_self
    have term_le := small j
    rw [List.foldlM_cons]
    apply (adds tmp j (by omega)).bind
    rintro next ⟨here, others⟩
    have apart {j' : Fin 8} (member : j' ∈ row) : column i j' ≠ column i j := by
      intro same
      rw [column_injective same] at member
      exact fresh member
    have fits' : ∀ j' ∈ row, (next (column i j')).toNat + bound < 2 ^ 64 := by
      intro j' member
      rw [others _ (apart member)]
      exact fits j' (List.mem_cons_of_mem j member)
    apply (ih nodup fits').mono
    rintro after ⟨value, untouched, most⟩
    apply And.intro
    · have added := number_of_added here others
      have place : (column i j).val = i.val + j.val := rfl
      rw [value, added, rowValue_cons, place, add_assoc]
    apply And.intro
    · intro k outside
      rw [untouched k fun j' member => outside j' (List.mem_cons_of_mem j member),
        others k (outside j List.mem_cons_self)]
    · intro k
      by_cases same : k = column i j
      · rw [untouched k fun j' member equal => apart member (equal.symm.trans same), same, here]
        omega
      · rw [← others k same]
        exact most k

theorem rows_meet {step : Fin 8 → LargeFieldElement → Fin 8 → Audited LargeFieldElement} {term : Fin 8 → Fin 8 → ℕ}
    (adds : ∀ i, AddsTo (step i) i (term i)) {bound : ℕ} (small : ∀ i j, term i j ≤ bound)
    {row : Fin 8 → List (Fin 8)} (nodup : ∀ i, (row i).Nodup) {list : List (Fin 8)} {tmp : LargeFieldElement}
    (fits : ∀ k, (tmp k).toNat + list.length * bound < 2 ^ 64) :
    (list.foldlM (fun tmp i => (row i).foldlM (step i) tmp) tmp).Meets fun after =>
      number 28 (limbs after) = number 28 (limbs tmp) + (list.map fun i => rowValue i (term i) (row i)).sum ∧
      ∀ k, (after k).toNat ≤ (tmp k).toNat + list.length * bound := by
  induction list generalizing tmp with
  | nil => exact Meets.pure ⟨by rw [List.map_nil, List.sum_nil, add_zero], fun _ => Nat.le_add_right _ _⟩
  | cons i list ih =>
    rw [List.foldlM_cons]
    simp only [List.length_cons, add_mul, one_mul] at fits ⊢
    apply (row_meets (adds i) (small i) (nodup i) fun j _ => by have := fits (column i j); omega).bind
    rintro next ⟨value, -, most⟩
    apply (ih fun k => by have := fits k; have := most k; omega).mono
    rintro after ⟨value', most'⟩
    apply And.intro
    · rw [value', value, List.map_cons, List.sum_cons, add_assoc]
    · intro k
      have first := most k
      have rest := most' k
      omega

theorem limbs_zero {w n : ℕ} : limbs (fun _ : Fin n => (0 : BitVec w)) = fun _ => 0 := by
  funext _
  simp [limbs]

theorem toNat_wide (x : BitVec 32) : (x.setWidth 64).toNat = x.toNat := by
  have width := x.isLt
  rw [BitVec.toNat_setWidth, Nat.mod_eq_of_lt (by omega)]

theorem accumulate_meets {tmp : LargeFieldElement} {k : Fin 15} {x : BitVec 64} {term : ℕ} (x_eq : x.toNat = term)
    (fits : (tmp k).toNat + term < 2 ^ 64) :
    (accumulate tmp k x).Meets fun after =>
      (after k).toNat = (tmp k).toNat + term ∧ ∀ j, j ≠ k → after j = tmp j := by
  subst x_eq
  apply (Meets.plus fits).bind
  intro sum sum_eq
  apply Meets.pure
  exact ⟨by rw [update_self, sum_eq], fun j other => update_of_ne other _ _⟩

theorem product_meets (x y : BitVec 32) :
    (times (x.setWidth 64) (y.setWidth 64)).Meets fun product => product.toNat = x.toNat * y.toNat := by
  have fits : x.toNat * y.toNat < 2 ^ 32 * 2 ^ 32 := Nat.mul_lt_mul'' x.isLt y.isLt
  have meets := Meets.times (x := x.setWidth 64) (y := y.setWidth 64) (by rwa [toNat_wide, toNat_wide])
  rwa [toNat_wide, toNat_wide] at meets

/-! ### Products -/

theorem sum_rowValue_mul (a b : FieldElement) :
    ((List.finRange 8).map fun i => rowValue i (fun j => (a i).toNat * (b j).toNat) (List.finRange 8)).sum =
      valueOf a * valueOf b := by
  have row (i : Fin 8) : rowValue i (fun j => (a i).toNat * (b j).toNat) (List.finRange 8) =
      limbs a i * 2 ^ (28 * i.val) * valueOf b := by
    rw [rowValue, ← Fin.sum_univ_def, valueOf, number, Finset.mul_sum]
    apply Finset.sum_congr rfl
    intro j _
    rw [Nat.cast_mul, mul_add, pow_add, limbs, limbs]
    ring
  rw [← Fin.sum_univ_def]
  simp only [row]
  rw [← Finset.sum_mul]
  rfl

theorem mul_meets {a b : FieldElement}
    (below : Below a (2 ^ 29) ∧ Below b (2 ^ 30) ∨ Below a (2 ^ 30) ∧ Below b (2 ^ 29)) :
    (mul a b).Meets fun out =>
      valueOf out ≡ valueOf a * valueOf b [ZMOD prime] ∧ ∀ j, (out j).toNat ≤ 2 ^ 29 - 2 := by
  have small (i j : Fin 8) : (a i).toNat * (b j).toNat ≤ (2 ^ 29 - 1) * (2 ^ 30 - 1) := by
    rcases below with ⟨left, right⟩ | ⟨left, right⟩
    · exact Nat.mul_le_mul (Nat.le_sub_one_of_lt (left i)) (Nat.le_sub_one_of_lt (right j))
    · rw [Nat.mul_comm]
      exact Nat.mul_le_mul (Nat.le_sub_one_of_lt (right j)) (Nat.le_sub_one_of_lt (left i))
  have adds (i : Fin 8) : AddsTo (fun tmp j => do
      let product ← times ((a i).setWidth 64) ((b j).setWidth 64)
      accumulate tmp (column i j) product) i fun j => (a i).toNat * (b j).toNat := by
    intro tmp j fits
    apply (product_meets (a i) (b j)).bind
    intro product product_eq
    exact accumulate_meets product_eq fits
  unfold mul
  apply (Meets.require (decide_eq_true below)).bind
  intro _ _
  apply (rows_meet adds small (fun _ => List.nodup_finRange 8) fun k => by simp).bind
  rintro tmp ⟨value, most⟩
  rw [sum_rowValue_mul, limbs_zero, number_zero, zero_add] at value
  apply (reduceLarge_meets fun k => (most k).trans (by simp)).mono
  rintro out ⟨congruent, bounds⟩
  rw [value] at congruent
  exact ⟨congruent, bounds⟩

/-! ### Squares -/

/-- What a step of `Square` adds: the products off the diagonal count twice. -/
def squareTerm (a : FieldElement) (i j : Fin 8) : ℕ := (a i).toNat * (a j).toNat * if i = j then 1 else 2

theorem sum_triangle (x : Fin 8 → ℤ) :
    ((List.finRange 8).map fun i =>
      (((List.finRange 8).filter (· ≤ i)).map fun j => x i * x j * if i = j then 1 else 2).sum).sum =
        (∑ i, x i) * ∑ i, x i := by
  simp [List.finRange, Fin.sum_univ_eight]
  ring

theorem sum_rowValue_square (a : FieldElement) :
    ((List.finRange 8).map fun i => rowValue i (squareTerm a i) ((List.finRange 8).filter (· ≤ i))).sum =
      valueOf a * valueOf a := by
  have term (i j : Fin 8) : (squareTerm a i j : ℤ) * 2 ^ (28 * (i.val + j.val)) =
      limbs a i * 2 ^ (28 * i.val) * (limbs a j * 2 ^ (28 * j.val)) * if i = j then 1 else 2 := by
    rw [squareTerm, limbs, limbs, mul_add, pow_add]
    push_cast
    ring
  simp only [rowValue, term]
  exact sum_triangle fun i => limbs a i * 2 ^ (28 * i.val)

theorem square_meets {a : FieldElement} (below : Below a (2 ^ 29)) :
    (square a).Meets fun out =>
      valueOf out ≡ valueOf a * valueOf a [ZMOD prime] ∧ ∀ j, (out j).toNat ≤ 2 ^ 29 - 2 := by
  have product_le (i j : Fin 8) : (a i).toNat * (a j).toNat ≤ (2 ^ 29 - 1) * (2 ^ 29 - 1) :=
    Nat.mul_le_mul (Nat.le_sub_one_of_lt (below i)) (Nat.le_sub_one_of_lt (below j))
  have small (i j : Fin 8) : squareTerm a i j ≤ (2 ^ 29 - 1) * (2 ^ 29 - 1) * 2 := by
    rw [squareTerm]
    apply Nat.mul_le_mul (product_le i j)
    split <;> decide
  have adds (i : Fin 8) : AddsTo (fun tmp j => do
      let r ← times ((a i).setWidth 64) ((a j).setWidth 64)
      if i = j then accumulate tmp (column i j) r
      else do
        let double ← shifted r 1
        accumulate tmp (column i j) double) i (squareTerm a i) := by
    intro tmp j fits
    apply (product_meets (a i) (a j)).bind
    intro r r_eq
    have bound := product_le i j
    by_cases diagonal : i = j
    · rw [if_pos diagonal]
      exact accumulate_meets (by rw [r_eq, squareTerm, if_pos diagonal, Nat.mul_one]) fits
    · rw [if_neg diagonal]
      apply (@Meets.shifted _ r 1 (by omega)).bind
      intro double double_eq
      exact accumulate_meets (by rw [double_eq, r_eq, squareTerm, if_neg diagonal, pow_one]) fits
  unfold square
  apply (Meets.require (decide_eq_true below)).bind
  intro _ _
  apply (rows_meet adds small (fun _ => (List.nodup_finRange 8).filter _) fun k => by simp).bind
  rintro tmp ⟨value, most⟩
  rw [sum_rowValue_square, limbs_zero, number_zero, zero_add] at value
  apply (reduceLarge_meets fun k => (most k).trans (by simp)).mono
  rintro out ⟨congruent, bounds⟩
  rw [value] at congruent
  exact ⟨congruent, bounds⟩

/-- Whichever operand is the greater one, no step wraps around, and the result is the product. -/
theorem products_correct {a b : FieldElement} (narrow : Below a (2 ^ 29)) (loose : Below b (2 ^ 30)) :
    ((mul a b).Meets fun out => valueOf out ≡ valueOf a * valueOf b [ZMOD prime] ∧ Below out (2 ^ 29)) ∧
      ((mul b a).Meets fun out => valueOf out ≡ valueOf b * valueOf a [ZMOD prime] ∧ Below out (2 ^ 29)) ∧
      (square a).Meets fun out => valueOf out ≡ valueOf a * valueOf a [ZMOD prime] ∧ Below out (2 ^ 29) := by
  have below {out : FieldElement} (most : ∀ j, (out j).toNat ≤ 2 ^ 29 - 2) : Below out (2 ^ 29) :=
    fun j => Nat.lt_of_le_of_lt (most j) (by decide)
  apply And.intro
  · exact (mul_meets (Or.inl ⟨narrow, loose⟩)).mono fun _ holds => ⟨holds.1, below holds.2⟩
  apply And.intro
  · exact (mul_meets (Or.inr ⟨loose, narrow⟩)).mono fun _ holds => ⟨holds.1, below holds.2⟩
  · exact (square_meets narrow).mono fun _ holds => ⟨holds.1, below holds.2⟩

/-- The greatest operands. -/
theorem products_correct_greatest :
    let a : FieldElement := fun _ => 2 ^ 29 - 1
    let b : FieldElement := fun _ => 2 ^ 30 - 1
    ((mul a b).Meets fun out => valueOf out ≡ valueOf a * valueOf b [ZMOD prime] ∧ Below out (2 ^ 29)) ∧
      ((mul b a).Meets fun out => valueOf out ≡ valueOf b * valueOf a [ZMOD prime] ∧ Below out (2 ^ 29)) ∧
      (square a).Meets fun out => valueOf out ≡ valueOf a * valueOf a [ZMOD prime] ∧ Below out (2 ^ 29) :=
  products_correct (by decide) (by decide)

end Libchrome.Crypto.P224
