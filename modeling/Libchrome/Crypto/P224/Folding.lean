import Libchrome.Crypto.P224.FieldElement
import Libchrome.Library.Limbs
import Mathlib.Tactic.IntervalCases

/-! Carry chains keep the value of a field element. -/

namespace Libchrome.Crypto.P224
open Function Library Audited Limbs

/-- Limbs as numbers. -/
def limbs {w n : ℕ} (a : Fin n → BitVec w) : Fin n → ℤ := fun i => ((a i).toNat : ℤ)

def valueOf (a : FieldElement) : ℤ := number 28 (limbs a)

theorem valueOf_eq (a : FieldElement) : valueOf a = (a 0).toNat + (a 1).toNat * 2 ^ 28 + (a 2).toNat * 2 ^ 56 +
    (a 3).toNat * 2 ^ 84 + (a 4).toNat * 2 ^ 112 + (a 5).toNat * 2 ^ 140 + (a 6).toNat * 2 ^ 168 +
    (a 7).toNat * 2 ^ 196 := by
  simp [valueOf, number, limbs, Fin.sum_univ_eight]

theorem limbs_update {w n : ℕ} (a : Fin n → BitVec w) (i : Fin n) (x : BitVec w) :
    limbs (update a i x) = update (limbs a) i (x.toNat : ℤ) := by
  funext j
  rw [limbs, apply_update (fun _ (y : BitVec w) => (y.toNat : ℤ))]
  rfl

/-! ### Bits -/

theorem toNat_shiftRight {w : ℕ} (x : BitVec w) (count : ℕ) : (x >>> count).toNat = x.toNat / 2 ^ count := by
  rw [BitVec.toNat_ushiftRight, Nat.shiftRight_eq_div_pow]

theorem toNat_bottom (x : BitVec 32) : (x &&& kBottom28Bits).toNat = x.toNat % 2 ^ 28 := by
  rw [BitVec.toNat_and]
  exact Nat.and_two_pow_sub_one_eq_mod x.toNat 28

theorem succ_val {i : Fin 8} (inside : i.val < 7) : (i + 1).val = i.val + 1 := by
  revert i
  decide

theorem carry_meets {a : FieldElement} {i : Fin 8} (inside : i.val < 7)
    (fits : (a (i + 1)).toNat + (a i).toNat / 2 ^ 28 < 2 ^ 32) :
    (carry a i).Meets fun b => valueOf b = valueOf a ∧ (b i).toNat = (a i).toNat % 2 ^ 28 ∧
      (b (i + 1)).toNat = (a (i + 1)).toNat + (a i).toNat / 2 ^ 28 ∧
      ∀ j, j ≠ i → j ≠ i + 1 → b j = a j := by
  have apart : i + 1 ≠ i := by
    intro same
    have values := congrArg Fin.val same
    rw [succ_val inside] at values
    omega
  apply (Meets.plus (x := a (i + 1)) (y := a i >>> 28) (by rwa [toNat_shiftRight])).bind
  intro sum sum_eq
  rw [toNat_shiftRight] at sum_eq
  apply Meets.pure
  apply And.intro
  · have remains : (((a i &&& kBottom28Bits).toNat : ℕ) : ℤ) = limbs a i - ((a i).toNat / 2 ^ 28 : ℕ) * 2 ^ 28 := by
      rw [toNat_bottom, limbs]
      omega
    have moved : ((sum.toNat : ℕ) : ℤ) = limbs a (i + 1) + ((a i).toNat / 2 ^ 28 : ℕ) := by
      rw [sum_eq, limbs, Nat.cast_add]
    rw [valueOf, limbs_update, limbs_update, remains, moved, number_carry _ (succ_val inside), valueOf]
  apply And.intro
  · rw [update_self, toNat_bottom]
  apply And.intro
  · rw [update_of_ne apart, update_self, sum_eq]
  · intro j other other'
    rw [update_of_ne other, update_of_ne other']

/-- What a carry chain over the limbs from `start` to the last but one has done after some steps. -/
structure Carried (a : FieldElement) (start count : ℕ) (b : FieldElement) : Prop where
  value : valueOf b = valueOf a
  before : ∀ j : Fin 8, j.val < start → b j = a j
  done : ∀ j : Fin 8, start ≤ j.val → j.val < start + count → (b j).toNat < 2 ^ 28
  first : ∀ j : Fin 8, j.val = start → (b j).toNat = if count = 0 then (a j).toNat else (a j).toNat % 2 ^ 28
  next : ∀ j : Fin 8, j.val = start + count → (a j).toNat ≤ (b j).toNat ∧ (b j).toNat ≤ (a j).toNat + 15
  after : ∀ j : Fin 8, start + count < j.val → b j = a j

theorem carries_meet {a : FieldElement} {start : ℕ} {list : List (Fin 8)}
    (indices : ∀ i : Fin list.length, list[i].val = start + i) (length : start + list.length = 7)
    (fits : ∀ j, (a j).toNat ≤ 2 ^ 32 - 16) :
    (list.foldlM carry a).Meets fun b => Carried a start list.length b := by
  apply Meets.foldlM (fun count b => Carried a start count b)
  · exact ⟨rfl, fun _ _ => rfl, fun j above below => by omega, fun _ _ => (if_pos rfl).symm,
      fun _ _ => ⟨Nat.le_refl _, Nat.le_add_right _ _⟩, fun _ _ => rfl⟩
  · intro i b carried
    have here := indices i
    have inside : list[i].val < 7 := by omega
    have next := succ_val inside
    have below : (b list[i]).toNat < 2 ^ 32 := (b list[i]).isLt
    have untouched := carried.after (list[i] + 1) (by omega)
    have room := fits (list[i] + 1)
    apply (carry_meets inside (by rw [untouched]; omega)).mono
    rintro c ⟨value, low, high, others⟩
    have other {j : Fin 8} (different : j.val ≠ list[i].val) (different' : j.val ≠ (list[i] + 1).val) : c j = b j :=
      others j (fun same => different (congrArg Fin.val same)) (fun same => different' (congrArg Fin.val same))
    constructor
    · exact value.trans carried.value
    · intro j earlier
      rw [other (by omega) (by omega)]
      exact carried.before j earlier
    · intro j above atMost
      by_cases same : j = list[i]
      · rw [same, low]
        exact Nat.mod_lt _ (by decide)
      · have different : j.val ≠ list[i].val := fun equal => same (Fin.ext equal)
        rw [other different (by omega)]
        exact carried.done j above (by omega)
    · intro j begins
      have earlier := carried.first j begins
      rw [if_neg (Nat.succ_ne_zero _)]
      by_cases zero : i.val = 0
      · have same : j = list[i] := Fin.ext (by omega)
        rw [if_pos zero] at earlier
        rw [same, low, ← same, earlier]
      · rw [if_neg zero] at earlier
        rw [other (by omega) (by omega), earlier]
    · intro j place
      have same : j = list[i] + 1 := Fin.ext (by omega)
      rw [same, high, untouched]
      omega
    · intro j later
      rw [other (by omega) (by omega)]
      exact carried.after j (by omega)

theorem carry_of_small {a : FieldElement} {i : Fin 8} (small : (a i).toNat < 2 ^ 28) : (carry a i).value = a := by
  have none : a i >>> 28 = 0#32 := by
    apply BitVec.eq_of_toNat_eq
    rw [toNat_shiftRight, Nat.div_eq_of_lt small]
    rfl
  have all : a i &&& kBottom28Bits = a i := by
    apply BitVec.eq_of_toNat_eq
    rw [toNat_bottom, Nat.mod_eq_of_lt small]
  change update (update a (i + 1) (a (i + 1) + a i >>> 28)) i (a i &&& kBottom28Bits) = a
  rw [none, all, BitVec.add_zero, update_eq_self, update_eq_self]

theorem carries_of_small {a : FieldElement} {list : List (Fin 8)} (small : ∀ i ∈ list, (a i).toNat < 2 ^ 28) :
    (list.foldlM carry a).value = a := by
  induction list with
  | nil => rfl
  | cons i list ih =>
    rw [List.foldlM_cons]
    change (list.foldlM carry (carry a i).value).value = a
    rw [carry_of_small (small i List.mem_cons_self)]
    exact ih fun j member => small j (List.mem_cons_of_mem i member)

/-! Words of all ones or all zeros, which stand for a condition. -/

/-- A condition as a word. -/
def asMask (condition : Prop) [Decidable condition] : BitVec 32 := if condition then BitVec.allOnes 32 else 0#32

theorem asMask_congr {first second : Prop} [Decidable first] [Decidable second] (same : first ↔ second) :
    asMask first = asMask second := by
  unfold asMask
  simp only [same]

theorem asMask_and {first second : Prop} [Decidable first] [Decidable second] :
    asMask first &&& asMask second = asMask (first ∧ second) := by
  by_cases holds : first
  · have both : asMask (first ∧ second) = asMask second := asMask_congr (and_iff_right holds)
    rw [both, asMask, if_pos holds, BitVec.allOnes_and]
  · have neither : asMask (first ∧ second) = 0#32 := if_neg fun both => holds both.1
    rw [neither, asMask, if_neg holds, BitVec.zero_and]

theorem asMask_not {condition : Prop} [Decidable condition] : ~~~asMask condition = asMask ¬condition := by
  by_cases holds : condition
  · rw [asMask, asMask, if_pos holds, if_neg (not_not.mpr holds), BitVec.not_allOnes]
  · rw [asMask, asMask, if_neg holds, if_pos holds, BitVec.not_zero]

section
variable (x : BitVec 32)
include x

theorem and_asMask (condition : Prop) [Decidable condition] :
    x &&& asMask condition = if condition then x else 0#32 := by
  unfold asMask
  split
  next => exact BitVec.and_allOnes
  next => exact BitVec.and_zero

theorem signMask_eq : signMask x = asMask (x.getLsbD 31 = true) := by
  apply BitVec.eq_of_getLsbD_eq
  intro i inside
  have outside : decide (32 ≤ i) = false := decide_eq_false (Nat.not_le.mpr inside)
  rw [signMask, asMask, BitVec.getLsbD_sshiftRight, BitVec.msb_eq_getLsbD_last, outside]
  have bit : (if 31 + i < 32 then x.getLsbD (31 + i) else x.getLsbD (32 - 1)) = x.getLsbD 31 := by
    split
    next first => rw [show 31 + i = 31 by omega]
    next => rfl
  rw [bit]
  split
  next set => rw [BitVec.getLsbD_allOnes, decide_eq_true inside, set, Bool.not_false, Bool.and_self]
  next unset =>
    rw [Bool.eq_false_iff.mpr unset, Bool.and_false, BitVec.getLsbD_zero]

theorem sign_iff_toInt : x.getLsbD 31 = true ↔ x.toInt < 0 := by
  have last : x.msb = x.getLsbD 31 := BitVec.msb_eq_getLsbD_last x
  rw [← last, BitVec.msb_eq_toInt, decide_eq_true_iff]

/-- The shift puts the lowest bit in charge. -/
theorem signMask_lowest : signMask (x <<< 31) = asMask (x.getLsbD 0 = true) := by
  rw [signMask_eq]
  apply asMask_congr
  simp

theorem lowest_iff_odd : x.getLsbD 0 = true ↔ x.toNat % 2 = 1 := by
  rw [BitVec.getLsbD, Nat.testBit_zero, decide_eq_true_iff]

/-- A word and its upper half over the lower half. -/
theorem halves_and (half : ℕ) :
    (∀ i < half, (x &&& x >>> half).getLsbD i = true) ↔ ∀ i < half + half, x.getLsbD i = true := by
  simp only [BitVec.getLsbD_and, BitVec.getLsbD_ushiftRight, Bool.and_eq_true]
  constructor
  · intro both i inside
    by_cases low : i < half
    · exact (both i low).1
    · have upper := (both (i - half) (by omega)).2
      rwa [show half + (i - half) = i by omega] at upper
  · exact fun all i low => ⟨all i (by omega), all (half + i) (by omega)⟩

theorem halves_or (half : ℕ) :
    (∃ i < half, (x ||| x >>> half).getLsbD i = true) ↔ ∃ i < half + half, x.getLsbD i = true := by
  simp only [BitVec.getLsbD_or, BitVec.getLsbD_ushiftRight, Bool.or_eq_true]
  constructor
  · rintro ⟨i, low, set | set⟩
    · exact ⟨i, by omega, set⟩
    · exact ⟨half + i, by omega, set⟩
  · rintro ⟨i, inside, set⟩
    by_cases low : i < half
    · exact ⟨i, low, Or.inl set⟩
    · exact ⟨i - half, by omega, Or.inr (by rwa [show half + (i - half) = i by omega])⟩

theorem andBits_lowest : (andBits x).getLsbD 0 = true ↔ ∀ i < 32, x.getLsbD i = true := by
  have single : (andBits x).getLsbD 0 = true ↔ ∀ i < 1, (andBits x).getLsbD i = true := by simp
  rw [single, andBits, halves_and, halves_and, halves_and, halves_and, halves_and]

theorem orBits_lowest : (orBits x).getLsbD 0 = true ↔ ∃ i < 32, x.getLsbD i = true := by
  have single : (orBits x).getLsbD 0 = true ↔ ∃ i < 1, (orBits x).getLsbD i = true := by simp
  rw [single, orBits, halves_or, halves_or, halves_or, halves_or, halves_or]

/-- Gathered bits go down only, so the sign stays. -/
theorem orBits_sign : (orBits x).getLsbD 31 = x.getLsbD 31 := by
  simp [orBits]

end

/-! Bits above the topmost limb fold back below it, by limbs that are negative for a while. -/

/-- One to take from the next limb if this one is negative. -/
def debt (limb : ℤ) : ℤ := if limb < 0 then 1 else 0

theorem debt_spec (limb : ℤ) : (limb < 0 → debt limb = 1) ∧ (0 ≤ limb → debt limb = 0) :=
  ⟨fun negative => if_pos negative, fun nonneg => if_neg (not_lt.mpr nonneg)⟩

/-- A negative limb takes from the next. -/
theorem carryDown_toInt {out : FieldElement} {i k : Fin 8} (next : i + 1 = k) (apart : k ≠ i)
    (least : -2 ^ 28 ≤ (out i).toInt) (most : (out i).toInt < 2 ^ 30) (least' : -2 ^ 30 ≤ (out k).toInt) :
    (carryDown out i i).toInt = (out i).toInt + debt (out i).toInt * 2 ^ 28 ∧
      (carryDown out i k).toInt = (out k).toInt - debt (out i).toInt ∧
      ∀ j, j ≠ i → j ≠ k → carryDown out i j = out j := by
  subst next
  have mask : signMask (out i) = asMask ((out i).toInt < 0) := by
    rw [signMask_eq]
    exact asMask_congr (sign_iff_toInt (out i))
  have bound := BitVec.toInt_lt (x := out (i + 1))
  have radix : (1#32 <<< 28).toInt = 2 ^ 28 := by decide
  unfold carryDown debt
  rw [mask]
  rw [and_asMask, and_asMask, update_of_ne apart.symm, update_self, update_self, update_of_ne apart]
  apply And.intro
  · split
    next => rw [BitVec.toInt_add, radix, Int.bmod_eq_of_le (by omega) (by omega), one_mul]
    next => rw [BitVec.toInt_add, BitVec.toInt_zero, Int.bmod_eq_of_le (by omega) (by omega), zero_mul]
  apply And.intro
  · split
    next =>
      have one : (1 : BitVec 32).toInt = 1 := by decide
      rw [BitVec.toInt_sub, one, Int.bmod_eq_of_le (by omega) (by omega)]
    next => rw [BitVec.toInt_sub, BitVec.toInt_zero, Int.bmod_eq_of_le (by omega) (by omega)]
  · intro j other other'
    rw [update_of_ne other', update_of_ne other]

/-- What elimination of the top and the carry down after it do. -/
structure Folded (b : FieldElement) (top : ℕ) (c : FieldElement) : Prop where
  value : valueOf c = valueOf b - top * prime
  low : ∀ j : Fin 8, j.val < 3 → (c j).toNat < 2 ^ 28
  third : (c 3).toNat ≤ (b 3).toNat + top * 2 ^ 12
  high : ∀ j : Fin 8, 3 < j.val → j.val < 7 → c j = b j
  last : (c 7).toNat < 2 ^ 28

/-- Signed limbs that are not negative are their own value. -/
theorem toNat_of_nonneg {x : BitVec 32} (nonneg : 0 ≤ x.toInt) : (x.toNat : ℤ) = x.toInt := by
  rw [BitVec.toInt_eq_toNat_cond] at nonneg ⊢
  split at nonneg
  next small => rw [if_pos small]
  next => 
    have bound := x.isLt
    omega

theorem toInt_of_small {x : BitVec 32} (small : x.toNat < 2 ^ 31) : x.toInt = x.toNat := by
  rw [BitVec.toInt_eq_toNat_cond, if_pos (by omega)]

theorem folded_of_carries {b : FieldElement} (low : ∀ j : Fin 8, j.val < 7 → (b j).toNat < 2 ^ 28)
    (last : (b 7).toNat < 2 ^ 30) :
    Folded b ((b 7).toNat / 2 ^ 28) ([0, 1, 2].foldl carryDown (eliminateTop b)) := by
  have low0 := low 0 (by decide)
  have low1 := low 1 (by decide)
  have low2 := low 2 (by decide)
  have low3 := low 3 (by decide)
  have top_eq : (b 7 >>> 28).toNat = (b 7).toNat / 2 ^ 28 := toNat_shiftRight _ _
  have shifted : (b 7 >>> 28 <<< 12).toNat = (b 7).toNat / 2 ^ 28 * 2 ^ 12 := by
    rw [BitVec.toNat_shiftLeft, top_eq, Nat.shiftLeft_eq, Nat.mod_eq_of_lt (by omega)]
  have d0 : (eliminateTop b 0).toInt = (b 0).toNat - ((b 7).toNat / 2 ^ 28 : ℕ) := by
    change (b 0 - b 7 >>> 28).toInt = _
    rw [BitVec.toInt_sub, toInt_of_small (by omega), toInt_of_small (by omega), top_eq,
      Int.bmod_eq_of_le (by omega) (by omega)]
  have d3 : (eliminateTop b 3).toNat = (b 3).toNat + (b 7).toNat / 2 ^ 28 * 2 ^ 12 := by
    change (b 3 + b 7 >>> 28 <<< 12).toNat = _
    rw [BitVec.toNat_add, shifted, Nat.mod_eq_of_lt (by omega)]
  have d7 : (eliminateTop b 7).toNat = (b 7).toNat % 2 ^ 28 := toNat_bottom (b 7)
  have d1 : eliminateTop b 1 = b 1 := rfl
  have d2 : eliminateTop b 2 = b 2 := rfl
  have d4 : eliminateTop b 4 = b 4 := rfl
  have d5 : eliminateTop b 5 = b 5 := rfl
  have d6 : eliminateTop b 6 = b 6 := rfl
  generalize eliminateTop b = d at *
  have s0 : (d 0).toInt = (b 0).toNat - ((b 7).toNat / 2 ^ 28 : ℕ) := d0
  have s1 : (d 1).toInt = (b 1).toNat := by rw [d1, toInt_of_small (by omega)]
  have s2 : (d 2).toInt = (b 2).toNat := by rw [d2, toInt_of_small (by omega)]
  have s3 : (d 3).toInt = (b 3).toNat + ((b 7).toNat / 2 ^ 28 * 2 ^ 12 : ℕ) := by
    rw [toInt_of_small (by omega), d3, Nat.cast_add]
  change Folded b _ (carryDown (carryDown (carryDown d 0) 1) 2)
  obtain ⟨e0, e1, e⟩ := @carryDown_toInt d 0 1 rfl (by decide) (by omega) (by omega) (by omega)
  have debt0 := debt_spec (d 0).toInt
  generalize debt (d 0).toInt = x at *
  generalize carryDown d 0 = c at *
  have c2 := e 2 (by decide) (by decide)
  obtain ⟨f1, f2, f⟩ := @carryDown_toInt c 1 2 rfl (by decide) (by omega) (by omega)
    (by rw [c2]; omega)
  have debt1 := debt_spec (c 1).toInt
  generalize debt (c 1).toInt = y at *
  generalize carryDown c 1 = c' at *
  have t2 : (c' 2).toInt = (b 2).toNat - y := by rw [f2, c2, s2]
  have c3 : c' 3 = d 3 := (f 3 (by decide) (by decide)).trans (e 3 (by decide) (by decide))
  obtain ⟨g2, g3, g⟩ := @carryDown_toInt c' 2 3 rfl (by decide) (by omega) (by omega)
    (by rw [c3]; omega)
  have debt2 := debt_spec (c' 2).toInt
  generalize debt (c' 2).toInt = z at *
  generalize carryDown c' 2 = c'' at *
  have r0 : c'' 0 = c 0 := (g 0 (by decide) (by decide)).trans (f 0 (by decide) (by decide))
  have r1 : c'' 1 = c' 1 := g 1 (by decide) (by decide)
  have rest {j : Fin 8} (above : 3 < j.val) : c'' j = d j := by
    have apart {k : Fin 8} (atMost : k.val ≤ 3) : j ≠ k := fun same => by
      rw [same] at above
      omega
    rw [g j (apart (by decide)) (apart (by decide)), f j (apart (by decide)) (apart (by decide)),
      e j (apart (by decide)) (apart (by decide))]
  have n0 : ((c'' 0).toNat : ℤ) = (d 0).toInt + x * 2 ^ 28 := by
    rw [toNat_of_nonneg (by rw [r0]; omega), r0, e0]
  have n1 : ((c'' 1).toNat : ℤ) = (d 1).toInt - x + y * 2 ^ 28 := by
    rw [toNat_of_nonneg (by rw [r1]; omega), r1, f1, e1]
  have n2 : ((c'' 2).toNat : ℤ) = (d 2).toInt - y + z * 2 ^ 28 := by
    rw [toNat_of_nonneg (by omega), g2, t2, s2]
  have n3 : ((c'' 3).toNat : ℤ) = (d 3).toInt - z := by
    rw [toNat_of_nonneg (by rw [c3] at g3; omega), g3, c3]
  have four := rest (j := 4) (by decide)
  have five := rest (j := 5) (by decide)
  have six := rest (j := 6) (by decide)
  have seven := rest (j := 7) (by decide)
  constructor
  · rw [valueOf_eq, valueOf_eq b, four, five, six, seven, n0, n1, n2, n3, d7, d4, d5, d6, s0, s1, s2, s3, prime]
    omega
  · intro j below
    have bound0 : (c'' 0).toNat < 2 ^ 28 := by omega
    have bound1 : (c'' 1).toNat < 2 ^ 28 := by omega
    have bound2 : (c'' 2).toNat < 2 ^ 28 := by omega
    have place : j = 0 ∨ j = 1 ∨ j = 2 := by omega
    rcases place with rfl | rfl | rfl <;> assumption
  · omega
  · intro j above below
    have place : j = 4 ∨ j = 5 ∨ j = 6 := by omega
    rcases place with rfl | rfl | rfl
    · rw [four, d4]
    · rw [five, d5]
    · rw [six, d6]
  · rw [seven, d7]
    exact Nat.mod_lt _ (by decide)

end Libchrome.Crypto.P224
