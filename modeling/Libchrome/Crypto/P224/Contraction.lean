import Libchrome.Crypto.P224.Folding
import Mathlib.Tactic.FinCases

/-! What `Contract` makes of the sliver of values near the prime, and of all others. -/

namespace Libchrome.Crypto.P224
open Function Library Audited Limbs

/-- A number without its multiple of `2 ** 224`, for which the prime goes. -/
def folded (x : ℤ) : ℤ := x - x / 2 ^ 224 * prime

/-- The last step of `Contract`. -/
def subtractPrime (out : FieldElement) : FieldElement :=
  let mask := subtractionMask out
  let out := update out 0 (out 0 - (1 &&& mask))
  let out := update out 3 (out 3 - (0xffff000 &&& mask))
  let out := update out 4 (out 4 - (0xfffffff &&& mask))
  let out := update out 5 (out 5 - (0xfffffff &&& mask))
  let out := update out 6 (out 6 - (0xfffffff &&& mask))
  update out 7 (out 7 - (0xfffffff &&& mask))

/-! ### Before the last step -/

theorem Folded.value_eq {b c : FieldElement} (low : ∀ j : Fin 8, j.val < 7 → (b j).toNat < 2 ^ 28)
    (fold : Folded b ((b 7).toNat / 2 ^ 28) c) : valueOf c = folded (valueOf b) := by
  have top : valueOf b / 2 ^ 224 = ((b 7).toNat / 2 ^ 28 : ℕ) := by
    have b0 := low 0 (by decide)
    have b1 := low 1 (by decide)
    have b2 := low 2 (by decide)
    have b3 := low 3 (by decide)
    have b4 := low 4 (by decide)
    have b5 := low 5 (by decide)
    have b6 := low 6 (by decide)
    rw [valueOf_eq]
    omega
  rw [fold.value, folded, top]

/-- The limbs may exceed what `Contract` asks for, as they do in `SetFromString`. -/
theorem contract_prepares {out : FieldElement} (below : Below out (2 ^ 29 + 2 ^ 28)) :
    ∃ minimal, contract out = subtractPrime minimal ∧ Below minimal (2 ^ 28) ∧
      valueOf minimal = folded (folded (valueOf out)) := by
  have fits (j : Fin 8) : (out j).toNat ≤ 2 ^ 32 - 16 := (below j).le.trans (by decide)
  have carried := (@carries_meet _ 0 [0, 1, 2, 3, 4, 5, 6] (by decide) rfl fits).2
  generalize first : ([0, 1, 2, 3, 4, 5, 6].foldlM carry out).value = b at carried
  have low (j : Fin 8) (inside : j.val < 7) : (b j).toNat < 2 ^ 28 :=
    carried.done j (Nat.zero_le _) (by simpa using inside)
  have last := (carried.next 7 rfl).2
  have below7 := below 7
  have fold := folded_of_carries low (by omega)
  generalize second : [0, 1, 2].foldl carryDown (eliminateTop b) = c at fold
  have value := fold.value_eq low
  have third := fold.third
  have low3 := low 3 (by decide)
  have small (j : Fin 8) (other : j ≠ 3) : (c j).toNat < 2 ^ 28 := by
    by_cases before : j.val < 3
    · exact fold.low j before
    by_cases between : j.val < 7
    · rw [fold.high j (by omega) between]
      exact low j between
    · rw [show j = 7 by omega]
      exact fold.last
  have third' : (c 3).toNat < 2 ^ 28 + 2 ^ 14 := by omega
  have fits' (j : Fin 8) : (c j).toNat ≤ 2 ^ 32 - 16 := by
    by_cases here : j = 3
    · rw [here]
      omega
    · exact (small j here).le.trans (by decide)
  have carried' := (@carries_meet _ 3 [3, 4, 5, 6] (by decide) rfl fits').2
  have stays : (c 3).toNat < 2 ^ 28 → ([3, 4, 5, 6].foldlM carry c).value = c := by
    intro inside
    apply carries_of_small
    intro i member
    by_cases here : i = 3
    · rwa [here]
    · exact small i here
  generalize fourth : ([3, 4, 5, 6].foldlM carry c).value = c' at carried' stays
  have low' (j : Fin 8) (inside : j.val < 7) : (c' j).toNat < 2 ^ 28 := by
    by_cases before : j.val < 3
    · rw [carried'.before j before]
      exact fold.low j before
    · exact carried'.done j (by omega) (by simpa using inside)
  have last' := (carried'.next 7 rfl).2
  have bound7 := fold.last
  have fold' := folded_of_carries low' (by omega)
  have value' := fold'.value_eq low'
  have final3 : ([0, 1, 2].foldl carryDown (eliminateTop c') 3).toNat < 2 ^ 28 := by
    have third'' := fold'.third
    have low3' := low' 3 (by decide)
    by_cases inside : (c 3).toNat < 2 ^ 28
    · rw [stays inside] at third'' ⊢
      omega
    · have rest := carried'.first 3 rfl
      rw [if_neg (by decide)] at rest
      omega
  apply Exists.intro ([0, 1, 2].foldl carryDown (eliminateTop c'))
  apply And.intro
  · rw [← fourth, ← second, ← first]
    rfl
  apply And.intro
  · intro j
    by_cases before : j.val < 3
    · exact fold'.low j before
    by_cases here : j = 3
    · rwa [here]
    by_cases between : j.val < 7
    · rw [fold'.high j (by omega) between]
      exact low' j between
    · rw [show j = 7 by omega]
      exact fold'.last
  · rw [value', carried'.value, value, carried.value]

/-! ### The mask -/

theorem getLsbD_of_small {x : BitVec 32} {count i : ℕ} (small : x.toNat < 2 ^ count) (above : count ≤ i) :
    x.getLsbD i = false :=
  Nat.testBit_lt_two_pow (small.trans_le (Nat.pow_le_pow_right (by decide) above))

/-- A limb of ones only. -/
theorem full_iff {x : BitVec 32} (small : x.toNat < 2 ^ 28) :
    (∀ i < 32, (x ||| 0xf0000000).getLsbD i = true) ↔ x.toNat = 2 ^ 28 - 1 := by
  constructor
  · intro ones
    have same : x = 0xfffffff#32 := by
      apply BitVec.eq_of_getLsbD_eq
      intro i inside
      by_cases low : i < 28
      · have table : ∀ i < 28, (0xf0000000#32).getLsbD i = false ∧ (0xfffffff#32).getLsbD i = true := by decide
        have one := ones i inside
        rw [BitVec.getLsbD_or] at one
        change (x.getLsbD i || (0xf0000000#32).getLsbD i) = true at one
        rw [(table i low).1, Bool.or_false] at one
        rw [one, (table i low).2]
      · rw [getLsbD_of_small small (by omega), getLsbD_of_small (by decide) (show 28 ≤ i by omega)]
    rw [same]
    decide
  · intro full
    have same : x = 0xfffffff#32 := BitVec.eq_of_toNat_eq full
    rw [same]
    decide

/-- The upper half has ones only. -/
def Sliver (out : FieldElement) : Prop :=
  (out 4).toNat = 2 ^ 28 - 1 ∧ (out 5).toNat = 2 ^ 28 - 1 ∧ (out 6).toNat = 2 ^ 28 - 1 ∧ (out 7).toNat = 2 ^ 28 - 1

instance (out : FieldElement) : Decidable (Sliver out) := by
  unfold Sliver
  infer_instance

theorem subtractionMask_eq {out : FieldElement} (below : Below out (2 ^ 28)) :
    subtractionMask out = asMask (Sliver out ∧ (out 3).toNat % 2 = 0) := by
  have bottom : signMask (orBits (out 0 ||| out 1 ||| out 2)) = 0#32 := by
    rw [signMask_eq, orBits_sign, BitVec.getLsbD_or, BitVec.getLsbD_or, getLsbD_of_small (below 0) (by decide),
      getLsbD_of_small (below 1) (by decide), getLsbD_of_small (below 2) (by decide)]
    rfl
  have greater : ~~~signMask ((out 3 - 0xffff000) <<< 31) = asMask ((out 3).toNat % 2 = 0) := by
    rw [signMask_lowest, asMask_not]
    apply asMask_congr
    rw [lowest_iff_odd, BitVec.toNat_sub]
    have bound := below 3
    change ¬(2 ^ 32 - 0xffff000 + (out 3).toNat) % 2 ^ 32 % 2 = 1 ↔ _
    omega
  have ones : ∀ i < 32, (0xffffffff#32).getLsbD i = true := by decide
  have top : (∀ i < 32, (0xffffffff#32 &&& out 4 &&& out 5 &&& out 6 &&& out 7 ||| 0xf0000000).getLsbD i = true) ↔
      (out 4).toNat = 2 ^ 28 - 1 ∧ (out 5).toNat = 2 ^ 28 - 1 ∧ (out 6).toNat = 2 ^ 28 - 1 ∧
        (out 7).toNat = 2 ^ 28 - 1 := by
    rw [← full_iff (below 4), ← full_iff (below 5), ← full_iff (below 6), ← full_iff (below 7)]
    simp only [BitVec.getLsbD_or, BitVec.getLsbD_and, Bool.or_eq_true, Bool.and_eq_true]
    constructor
    · intro every
      exact ⟨fun i inside => by have := every i inside; tauto, fun i inside => by have := every i inside; tauto,
        fun i inside => by have := every i inside; tauto, fun i inside => by have := every i inside; tauto⟩
    · rintro ⟨four, five, six, seven⟩ i inside
      have := ones i inside
      have := four i inside
      have := five i inside
      have := six i inside
      have := seven i inside
      tauto
  change signMask (andBits (0xffffffff#32 &&& out 4 &&& out 5 &&& out 6 &&& out 7 ||| 0xf0000000) <<< 31) &&&
    (_ &&& signMask (orBits (out 0 ||| out 1 ||| out 2)) ||| ~~~signMask ((out 3 - 0xffff000) <<< 31)) = _
  rw [bottom, greater, BitVec.and_zero, BitVec.zero_or, signMask_lowest, asMask_and]
  apply asMask_congr
  apply and_congr_left'
  rw [andBits_lowest]
  exact top

/-- What is left of limbs in the sliver. -/
def subtracted (out : FieldElement) : FieldElement :=
  ![out 0 - 1, out 1, out 2, out 3 - 0xffff000, out 4 - 0xfffffff, out 5 - 0xfffffff, out 6 - 0xfffffff,
    out 7 - 0xfffffff]

theorem subtractPrime_of_even {out : FieldElement} (below : Below out (2 ^ 28)) (sliver : Sliver out)
    (even : (out 3).toNat % 2 = 0) : subtractPrime out = subtracted out := by
  unfold subtractPrime
  simp only [subtractionMask_eq below, and_asMask, if_pos (And.intro sliver even)]
  funext j
  fin_cases j <;> rfl

theorem subtractPrime_of_not {out : FieldElement} (below : Below out (2 ^ 28))
    (unmasked : ¬(Sliver out ∧ (out 3).toNat % 2 = 0)) : subtractPrime out = out := by
  unfold subtractPrime
  simp only [subtractionMask_eq below, and_asMask, if_neg unmasked, BitVec.sub_zero, update_eq_self]

theorem toNat_subtracted {d : FieldElement} (sliver : Sliver d) :
    (subtracted d 0).toNat = (2 ^ 32 - 1 + (d 0).toNat) % 2 ^ 32 ∧
    (subtracted d 3).toNat = (2 ^ 32 - 0xffff000 + (d 3).toNat) % 2 ^ 32 ∧ (subtracted d 4).toNat = 0 ∧
    (subtracted d 5).toNat = 0 ∧ (subtracted d 6).toNat = 0 ∧ (subtracted d 7).toNat = 0 := by
  have clear {x : BitVec 32} (ones : x.toNat = 2 ^ 28 - 1) : (x - 0xfffffff).toNat = 0 := by
    rw [show x = 0xfffffff from BitVec.eq_of_toNat_eq ones, BitVec.sub_self]
    rfl
  exact ⟨BitVec.toNat_sub (d 0) 1, BitVec.toNat_sub (d 3) 0xffff000, clear sliver.1, clear sliver.2.1,
    clear sliver.2.2.1, clear sliver.2.2.2⟩

section
variable {d : FieldElement} (small : Below d (2 ^ 28)) (sliver : Sliver d)
include small sliver

theorem below_subtracted_iff : Below (subtracted d) (2 ^ 28) ↔ 1 ≤ (d 0).toNat ∧ 0xffff000 ≤ (d 3).toNat := by
  obtain ⟨low0, low3, high4, high5, high6, high7⟩ := toNat_subtracted sliver
  have d0 := small 0
  have d3 := small 3
  constructor
  · intro below
    have below0 := below 0
    have below3 := below 3
    omega
  · intro atLeast
    have below0 : (subtracted d 0).toNat < 2 ^ 28 := by omega
    have below3 : (subtracted d 3).toNat < 2 ^ 28 := by omega
    intro j
    fin_cases j
    · exact below0
    · exact small 1
    · exact small 2
    · exact below3
    · exact high4.trans_lt (by decide)
    · exact high5.trans_lt (by decide)
    · exact high6.trans_lt (by decide)
    · exact high7.trans_lt (by decide)

theorem valueOf_subtracted (below : Below (subtracted d) (2 ^ 28)) : valueOf (subtracted d) = valueOf d - prime := by
  obtain ⟨atLeast0, atLeast3⟩ := (below_subtracted_iff small sliver).mp below
  obtain ⟨low0, low3, high4, high5, high6, high7⟩ := toNat_subtracted sliver
  obtain ⟨ones4, ones5, ones6, ones7⟩ := sliver
  have d0 := small 0
  have d3 := small 3
  have same1 : subtracted d 1 = d 1 := rfl
  have same2 : subtracted d 2 = d 2 := rfl
  rw [valueOf_eq, valueOf_eq d, same1, same2, prime]
  omega

end

theorem modEq_of_subtractPrime_eq {d e : FieldElement} (small : Below d (2 ^ 28)) (small' : Below e (2 ^ 28))
    (same : subtractPrime d = subtractPrime e) : valueOf d ≡ valueOf e [ZMOD prime] := by
  have once {d e : FieldElement} (small : Below d (2 ^ 28)) (small' : Below e (2 ^ 28)) (sliver : Sliver d)
      (same : subtracted d = e) : valueOf d ≡ valueOf e [ZMOD prime] := by
    rw [← same] at small' ⊢
    rw [valueOf_subtracted small sliver small', Int.modEq_iff_dvd]
    exact ⟨-1, by ring⟩
  by_cases masked : Sliver d ∧ (d 3).toNat % 2 = 0 <;> by_cases masked' : Sliver e ∧ (e 3).toNat % 2 = 0
  · rw [subtractPrime_of_even small masked.1 masked.2, subtractPrime_of_even small' masked'.1 masked'.2] at same
    have equal : d = e := by
      funext j
      fin_cases j
      · exact (BitVec.sub_left_inj 1).mp (congrFun same 0)
      · exact congrFun same 1
      · exact congrFun same 2
      · exact (BitVec.sub_left_inj 0xffff000).mp (congrFun same 3)
      · exact (BitVec.sub_left_inj 0xfffffff).mp (congrFun same 4)
      · exact (BitVec.sub_left_inj 0xfffffff).mp (congrFun same 5)
      · exact (BitVec.sub_left_inj 0xfffffff).mp (congrFun same 6)
      · exact (BitVec.sub_left_inj 0xfffffff).mp (congrFun same 7)
    rw [equal]
  · rw [subtractPrime_of_even small masked.1 masked.2, subtractPrime_of_not small' masked'] at same
    exact once small small' masked.1 same
  · rw [subtractPrime_of_not small masked, subtractPrime_of_even small' masked'.1 masked'.2] at same
    exact (once small' small masked'.1 same.symm).symm
  · rw [subtractPrime_of_not small masked, subtractPrime_of_not small' masked'] at same
    rw [same]

/-! ### The result -/

/-- The minimal form of a value. -/
def IsMinimal (a : FieldElement) (value : ℤ) : Prop :=
  valueOf a ≡ value [ZMOD prime] ∧ Below a (2 ^ 28) ∧ valueOf a < prime

/-- Below the sliver near the prime there is nothing to subtract. In it, `Contract` goes by the parity of limb 3. -/
def Contractible (v : ℤ) : Prop :=
  v / 2 ^ 112 = 2 ^ 112 - 1 → if v / 2 ^ 84 % 2 = 0 then prime ≤ v ∧ v % 2 ^ 28 ≠ 0 else v < prime

theorem folded_modEq (x : ℤ) : folded x ≡ x [ZMOD prime] := by
  rw [folded, Int.modEq_iff_dvd]
  exact ⟨x / 2 ^ 224, by ring⟩

/-- Limbs with one contraction stand for one element of the field. -/
theorem modEq_of_contract_eq {a b : FieldElement} (below : Below a (2 ^ 29 + 2 ^ 28))
    (below' : Below b (2 ^ 29 + 2 ^ 28)) (same : contract a = contract b) : valueOf a ≡ valueOf b [ZMOD prime] := by
  obtain ⟨d, contracted, small, value⟩ := contract_prepares below
  obtain ⟨e, contracted', small', value'⟩ := contract_prepares below'
  have congruent := modEq_of_subtractPrime_eq small small' (by rw [← contracted, same, contracted'])
  rw [value, value'] at congruent
  have folds (x : ℤ) : folded (folded x) ≡ x [ZMOD prime] := (folded_modEq _).trans (folded_modEq _)
  exact ((folds _).symm.trans congruent).trans (folds _)

theorem contract_minimal_iff {out : FieldElement} (below : Below out (2 ^ 29)) :
    IsMinimal (contract out) (valueOf out) ↔ Contractible (folded (folded (valueOf out))) := by
  obtain ⟨d, contracted, small, value⟩ := contract_prepares fun j => (below j).trans (by decide)
  have congruent : valueOf d ≡ valueOf out [ZMOD prime] := by
    rw [value]
    exact (folded_modEq _).trans (folded_modEq _)
  rw [contracted, ← value]
  have sum := valueOf_eq d
  have d0 := small 0
  have d1 := small 1
  have d2 := small 2
  have d3 := small 3
  have d4 := small 4
  have d5 := small 5
  have d6 := small 6
  have d7 := small 7
  have sliver_iff : valueOf d / 2 ^ 112 = 2 ^ 112 - 1 ↔ Sliver d := by
    rw [Sliver]
    omega
  have parity : valueOf d / 2 ^ 84 % 2 = 0 ↔ (d 3).toNat % 2 = 0 := by omega
  have lowest : valueOf d % 2 ^ 28 = (d 0).toNat := by omega
  rw [Contractible, sliver_iff]
  by_cases sliver : Sliver d
  · by_cases even : (d 3).toNat % 2 = 0
    · have atLeast_iff : prime ≤ valueOf d ∧ valueOf d % 2 ^ 28 ≠ 0 ↔
          1 ≤ (d 0).toNat ∧ 0xffff000 ≤ (d 3).toNat := by
        obtain ⟨ones4, ones5, ones6, ones7⟩ := sliver
        rw [prime]
        omega
      rw [subtractPrime_of_even small sliver even, imp_iff_right sliver, if_pos (parity.mpr even), atLeast_iff,
        ← below_subtracted_iff small sliver]
      constructor
      · exact fun minimal => minimal.2.1
      · intro below'
        have difference := valueOf_subtracted small sliver below'
        refine ⟨?_, below', ?_⟩
        · rw [difference]
          exact (Int.modEq_iff_dvd.mpr ⟨1, by ring⟩ : valueOf d - prime ≡ valueOf d [ZMOD prime]).trans congruent
        · rw [difference, prime]
          omega
    · rw [subtractPrime_of_not small fun both => even both.2, imp_iff_right sliver, if_neg (mt parity.mp even)]
      exact ⟨fun minimal => minimal.2.2, fun less => ⟨congruent, small, less⟩⟩
  · rw [subtractPrime_of_not small fun both => sliver both.1]
    have less : valueOf d < prime := by
      rw [← sliver_iff] at sliver
      rw [prime]
      omega
    exact iff_of_true ⟨congruent, small, less⟩ fun sliver' => absurd sliver' sliver

/-- The prime itself becomes zero. -/
theorem contract_minimal_iff_prime :
    IsMinimal (contract kP) (valueOf kP) ↔ Contractible (folded (folded (valueOf kP))) :=
  contract_minimal_iff (by decide)

/-- A value below the prime with an even limb 3: the difference wraps around in the lowest limb. -/
theorem contract_prime_sub_one : ¬∀ out, Below out (2 ^ 29) → IsMinimal (contract out) (valueOf out) := by
  intro every
  have minimal := every ![0, 0, 0, 0xffff000, 0xfffffff, 0xfffffff, 0xfffffff, 0xfffffff] (by decide)
  have wrapped : ¬(contract ![0, 0, 0, 0xffff000, 0xfffffff, 0xfffffff, 0xfffffff, 0xfffffff] 0).toNat < 2 ^ 28 := by
    decide
  exact wrapped (minimal.2.1 0)

/-! `IsZero` is right where `Contract` is not: the slips of the latter never make or hide a zero. -/

theorem foldl_or_eq_zero_iff (difference : Fin 8 → BitVec 32) (list : List (Fin 8)) (word : BitVec 32) :
    list.foldl (fun word i => word ||| difference i) word = 0#32 ↔
      word = 0#32 ∧ ∀ i ∈ list, difference i = 0#32 := by
  induction list generalizing word with
  | nil => simp
  | cons i list ih =>
    rw [List.foldl_cons, ih, BitVec.or_eq_zero_iff, List.forall_mem_cons, and_assoc]

theorem orBits_lowest_iff (x : BitVec 32) : (orBits x).getLsbD 0 = true ↔ x ≠ 0#32 := by
  rw [orBits_lowest]
  constructor
  · rintro ⟨i, inside, set⟩ rfl
    rw [BitVec.getLsbD_zero] at set
    exact Bool.false_ne_true set
  · intro nonzero
    by_contra none
    apply nonzero
    apply BitVec.eq_of_getLsbD_eq
    intro i inside
    have unset : x.getLsbD i = false := Bool.eq_false_iff.mpr fun set => none ⟨i, inside, set⟩
    exact unset.trans BitVec.getLsbD_zero.symm

theorem isZero_eq_asMask (a : FieldElement) :
    isZero a = asMask (contract a = (fun _ => 0) ∨ contract a = kP) := by
  have zero : (orBits ((List.finRange 8).foldl (fun is_zero i => is_zero ||| contract a i) 0)).getLsbD 0 = true ↔
      ¬contract a = fun _ => 0 := by
    rw [orBits_lowest_iff, ne_eq, foldl_or_eq_zero_iff, funext_iff]
    simp
  have is_p : (orBits ((List.finRange 8).foldl (fun is_p i => is_p ||| (contract a i - kP i)) 0)).getLsbD 0 = true ↔
      ¬contract a = kP := by
    have same (i : Fin 8) : contract a i - kP i = 0#32 ↔ contract a i = kP i := by
      rw [BitVec.sub_eq_iff_eq_add, BitVec.zero_add]
    rw [orBits_lowest_iff, ne_eq, foldl_or_eq_zero_iff, funext_iff]
    simp [same]
  change signMask ((~~~(orBits ((List.finRange 8).foldl (fun is_zero i => is_zero ||| contract a i) 0) &&&
    (orBits ((List.finRange 8).foldl (fun is_p i => is_p ||| (contract a i - kP i)) 0) &&& 1))) <<< 31) = _
  rw [signMask_lowest]
  apply asMask_congr
  have one : (1 : BitVec 32).getLsbD 0 = true := by decide
  rw [BitVec.getLsbD_not, BitVec.getLsbD_and, BitVec.getLsbD_and, one, Bool.and_true, decide_eq_true (by decide),
    Bool.true_and, Bool.not_eq_true', ← Bool.not_eq_true, Bool.and_eq_true, zero, is_p]
  tauto

theorem eq_of_valueOf_eq {a b : FieldElement} (below : Below a (2 ^ 28)) (below' : Below b (2 ^ 28))
    (same : valueOf a = valueOf b) : a = b := by
  rw [valueOf_eq, valueOf_eq b] at same
  have bounds (i : Fin 8) := And.intro (below i) (below' i)
  funext i
  apply BitVec.eq_of_toNat_eq
  have h0 := bounds 0
  have h1 := bounds 1
  have h2 := bounds 2
  have h3 := bounds 3
  have h4 := bounds 4
  have h5 := bounds 5
  have h6 := bounds 6
  have h7 := bounds 7
  fin_cases i <;> simp only [Fin.reduceFinMk, Fin.zero_eta, Fin.mk_one] <;> omega

theorem valueOf_modEq_zero_iff {d : FieldElement} (small : Below d (2 ^ 28)) :
    valueOf d ≡ 0 [ZMOD prime] ↔ d = (fun _ => 0) ∨ d = kP := by
  have zero : valueOf (fun _ => 0) = 0 := by decide
  have one : valueOf kP = prime := by decide
  constructor
  · intro congruent
    obtain ⟨count, value⟩ := Int.modEq_zero_iff_dvd.mp congruent
    have sum := valueOf_eq d
    have d0 := small 0
    have d1 := small 1
    have d2 := small 2
    have d3 := small 3
    have d4 := small 4
    have d5 := small 5
    have d6 := small 6
    have d7 := small 7
    have few : count = 0 ∨ count = 1 := by
      rw [prime] at value
      omega
    rcases few with rfl | rfl
    · exact Or.inl (eq_of_valueOf_eq small (by decide) (by rw [value, mul_zero, zero]))
    · exact Or.inr (eq_of_valueOf_eq small (by decide) (by rw [value, mul_one, one]))
  · rintro (rfl | rfl)
    · rw [zero]
    · rw [one, Int.modEq_zero_iff_dvd]

theorem subtractPrime_zero_iff {d : FieldElement} (small : Below d (2 ^ 28)) :
    subtractPrime d = (fun _ => 0) ∨ subtractPrime d = kP ↔ d = (fun _ => 0) ∨ d = kP := by
  constructor
  · intro either
    by_cases masked : Sliver d ∧ (d 3).toNat % 2 = 0
    · rw [subtractPrime_of_even small masked.1 masked.2] at either
      rcases either with zero | is_p
      · have back {x y : BitVec 32} (nothing : x - y = 0#32) : x = y := by
          rwa [BitVec.sub_eq_iff_eq_add, BitVec.zero_add] at nothing
        right
        funext j
        fin_cases j
        · exact back (congrFun zero 0)
        · exact congrFun zero 1
        · exact congrFun zero 2
        · exact back (congrFun zero 3)
        · exact back (congrFun zero 4)
        · exact back (congrFun zero 5)
        · exact back (congrFun zero 6)
        · exact back (congrFun zero 7)
      · have four : d 4 - 0xfffffff = 0xfffffff := congrFun is_p 4
        have ones : d 4 = 0xfffffff := BitVec.eq_of_toNat_eq masked.1.1
        rw [ones] at four
        exact absurd four (by decide)
    · rwa [subtractPrime_of_not small masked] at either
  · rintro (rfl | rfl)
    · exact Or.inl (by decide)
    · exact Or.inl (by decide)

/-- The mask of whether the limbs stand for zero. -/
theorem isZero_spec {a : FieldElement} (below : Below a (2 ^ 29)) :
    isZero a = asMask (valueOf a ≡ 0 [ZMOD prime]) := by
  obtain ⟨d, contracted, small, value⟩ := contract_prepares fun j => (below j).trans (by decide)
  have congruent : valueOf d ≡ valueOf a [ZMOD prime] := by
    rw [value]
    exact (folded_modEq _).trans (folded_modEq _)
  rw [isZero_eq_asMask, contracted]
  apply asMask_congr
  rw [subtractPrime_zero_iff small, ← valueOf_modEq_zero_iff small]
  exact ⟨congruent.symm.trans, congruent.trans⟩

/-- All ones for what is congruent to zero, and zero for the rest. -/
theorem isZero_correct {a : FieldElement} (below : Below a (2 ^ 29)) :
    (isZero a = BitVec.allOnes 32 ↔ valueOf a ≡ 0 [ZMOD prime]) ∧
      (¬valueOf a ≡ 0 [ZMOD prime] → isZero a = 0) := by
  rw [isZero_spec below]
  by_cases zero : valueOf a ≡ 0 [ZMOD prime]
  · simp [asMask, zero]
  · simp [asMask, zero]

theorem isZero_correct_twice :
    let twice : FieldElement := fun i => 2 * kP i
    (isZero twice = BitVec.allOnes 32 ↔ valueOf twice ≡ 0 [ZMOD prime]) ∧
      (¬valueOf twice ≡ 0 [ZMOD prime] → isZero twice = 0) :=
  isZero_correct (by decide)

end Libchrome.Crypto.P224
