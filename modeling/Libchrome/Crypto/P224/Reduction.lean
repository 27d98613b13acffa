import Libchrome.Crypto.P224.Folding
import Mathlib.Tactic.FinCases

/-! `Reduce` keeps a field element and brings its limbs below `2 ** 29`. -/

namespace Libchrome.Crypto.P224
open Function Library Audited Limbs

/-- One if there is something to make up for. -/
def borrow (top : ℕ) : ℕ := if top = 0 then 0 else 1

theorem topMask_eq {top : BitVec 32} (small : top.toNat < 16) :
    topMask top = if top.toNat = 0 then 0 else BitVec.allOnes 32 := by
  have all : ∀ count : Fin 16, topMask (BitVec.ofNat 32 count.val) =
      if count.val = 0 then 0 else BitVec.allOnes 32 := by decide
  have same := all ⟨top.toNat, small⟩
  rwa [BitVec.ofNat_toNat, BitVec.setWidth_eq] at same

theorem toNat_topMask_and {top : BitVec 32} (small : top.toNat < 16) (x : BitVec 32) :
    (topMask top &&& x).toNat = borrow top.toNat * x.toNat := by
  rw [topMask_eq small, borrow]
  split
  next =>
    change (0#32 &&& x).toNat = 0 * x.toNat
    rw [BitVec.zero_and, Nat.zero_mul]
    rfl
  next => rw [BitVec.allOnes_and, Nat.one_mul]

theorem reduce_meets {a : FieldElement} (fits : ∀ j, (a j).toNat ≤ 2 ^ 32 - 16) :
    (reduce a).Meets fun b => valueOf b ≡ valueOf a [ZMOD prime] ∧ ∀ j, (b j).toNat ≤ 2 ^ 29 - 2 := by
  unfold reduce
  apply (@carries_meet _ 0 _ (by decide) rfl fits).bind
  intro b carried
  have low : ∀ j : Fin 8, j.val < 7 → (b j).toNat < 2 ^ 28 :=
    fun j inside => carried.done j (Nat.zero_le _) (by simpa using inside)
  have top_eq : (b 7 >>> 28).toNat = (b 7).toNat / 2 ^ 28 := toNat_shiftRight _ _
  have small : (b 7 >>> 28).toNat < 16 := by
    have bound := (b 7).isLt
    omega
  have b0 := low 0 (by decide)
  have b1 := low 1 (by decide)
  have b2 := low 2 (by decide)
  have b3 := low 3 (by decide)
  have masked := toNat_topMask_and small
  have masked' (x : BitVec 32) : (x &&& topMask (b 7 >>> 28)).toNat = borrow (b 7 >>> 28).toNat * x.toNat := by
    rw [BitVec.and_comm, masked]
  have once : borrow (b 7 >>> 28).toNat ≤ 1 ∧ (b 7 >>> 28).toNat ≤ 15 * borrow (b 7 >>> 28).toNat ∧
      borrow (b 7 >>> 28).toNat ≤ (b 7 >>> 28).toNat := by
    rw [borrow]
    split <;> omega
  dsimp only
  generalize topMask (b 7 >>> 28) = mask at masked masked' ⊢
  generalize borrow (b 7 >>> 28).toNat = e at masked masked' once
  generalize b 7 >>> 28 = top at *
  have unit : (1 &&& mask).toNat = e := by
    rw [masked']
    exact Nat.mul_one e
  have radix : (mask &&& 1#32 <<< 28).toNat = e * 2 ^ 28 := masked _
  have most : (mask &&& (1#32 <<< 28 - 1)).toNat = e * (2 ^ 28 - 1) := masked _
  have shifted : (top <<< 12).toNat = top.toNat * 2 ^ 12 := by
    rw [BitVec.toNat_shiftLeft, Nat.shiftLeft_eq, Nat.mod_eq_of_lt (by omega)]
  have bottom := toNat_bottom (b 7)
  simp only [update_self, ne_eq, Fin.reduceEq, not_false_eq_true, update_of_ne]
  have enough : decide (top.toNat ≤ (b 0).toNat + (mask &&& 1#32 <<< 28).toNat) = true := by
    rw [decide_eq_true_iff, radix]
    omega
  apply (Meets.require enough).bind
  intro _ _
  apply (Meets.plus (x := b 3) (y := top <<< 12) (by rw [shifted]; omega)).bind
  intro a3 a3_eq
  rw [shifted] at a3_eq
  apply (Meets.minus (x := a3) (y := 1 &&& mask) (by rw [unit, a3_eq]; omega)).bind
  intro a3' a3'_eq
  rw [unit, a3_eq] at a3'_eq
  apply (Meets.plus (x := b 2) (y := mask &&& (1#32 <<< 28 - 1)) (by rw [most]; omega)).bind
  intro a2 a2_eq
  rw [most] at a2_eq
  apply (Meets.plus (x := b 1) (y := mask &&& (1#32 <<< 28 - 1)) (by rw [most]; omega)).bind
  intro a1 a1_eq
  rw [most] at a1_eq
  have a0_eq : (b 0 - top + (mask &&& 1#32 <<< 28)).toNat = (b 0).toNat + e * 2 ^ 28 - top.toNat := by
    rw [BitVec.toNat_add, BitVec.toNat_sub, radix]
    omega
  apply Meets.pure
  apply And.intro
  · rw [← carried.value, valueOf_eq, valueOf_eq b]
    simp only [update_self, ne_eq, Fin.reduceEq, not_false_eq_true, update_of_ne, a0_eq, a1_eq, a2_eq, a3'_eq, bottom]
    apply Int.ModEq.symm
    rw [Int.modEq_iff_dvd]
    apply Dvd.intro (-(top.toNat : ℤ))
    rw [prime]
    omega
  · intro j
    have b4 := low 4 (by decide)
    have b5 := low 5 (by decide)
    have b6 := low 6 (by decide)
    fin_cases j
    all_goals
      simp only [Fin.reduceFinMk, Fin.zero_eta, Fin.mk_one, update_self, ne_eq, Fin.reduceEq, not_false_eq_true,
        update_of_ne, a0_eq, a1_eq, a2_eq, a3'_eq, bottom]
      omega

/-! `ReduceLarge` keeps a large field element and brings it down to limbs below `2 ** 29`. -/

variable {i : Fin 15}

theorem sub_val (high : 8 ≤ i.val) : (i - 8).val = i.val - 8 ∧ (i - 5).val = i.val - 5 ∧ (i - 4).val = i.val - 4 := by
  revert i
  decide

/-- The value of the limbs below a place. -/
def valueBelow (count : ℕ) (large : LargeFieldElement) : ℤ := number 28 (lower count (limbs large))

/-! ### Reflections -/

theorem toNat_low16 (x : BitVec 64) : ((x &&& 0xffff) <<< 12).toNat = x.toNat % 2 ^ 16 * 2 ^ 12 := by
  have low : (x &&& 0xffff).toNat = x.toNat % 2 ^ 16 := by
    rw [BitVec.toNat_and]
    exact Nat.and_two_pow_sub_one_eq_mod x.toNat 16
  rw [BitVec.toNat_shiftLeft, low, Nat.shiftLeft_eq, Nat.mod_eq_of_lt (by omega)]

theorem reflect_modEq (value limb : ℤ) (count : ℕ) {low high : ℤ} (split : limb = low + high * 2 ^ 16) :
    value - limb * 2 ^ (28 * count) + low * 2 ^ 12 * 2 ^ (28 * (count + 3)) + high * 2 ^ (28 * (count + 4)) ≡
      value + limb * 2 ^ (28 * (count + 8)) [ZMOD prime] := by
  rw [Int.modEq_iff_dvd]
  apply Dvd.intro (limb * 2 ^ (28 * count))
  rw [split, prime, mul_add 28 count 3, mul_add 28 count 4, mul_add 28 count 8, pow_add, pow_add, pow_add]
  generalize (2 : ℤ) ^ (28 * count) = unit
  push_cast
  ring

theorem sub_lt (high : 8 ≤ i.val) : (i - 8).val < i.val ∧ (i - 5).val < i.val ∧ (i - 4).val < i.val := by
  revert i
  decide

theorem sub_add (high : 8 ≤ i.val) :
    i.val - 8 + 3 = i.val - 5 ∧ i.val - 8 + 4 = i.val - 4 ∧ i.val - 8 + 8 = i.val := by
  omega

theorem sub_ne (high : 8 ≤ i.val) : (i ≠ i - 8 ∧ i ≠ i - 5) ∧ i - 5 ≠ i - 8 ∧ i - 4 ≠ i - 8 ∧ i - 4 ≠ i - 5 := by
  revert i
  decide

variable {large : LargeFieldElement}

theorem reflect_value (high : 8 ≤ i.val) {least middle greatest : BitVec 64}
    (room : (large i).toNat ≤ (large (i - 8)).toNat)
    (least_eq : least.toNat = (large (i - 8)).toNat - (large i).toNat)
    (middle_eq : middle.toNat = (large (i - 5)).toNat + (large i).toNat % 2 ^ 16 * 2 ^ 12)
    (greatest_eq : greatest.toNat = (large (i - 4)).toNat + (large i).toNat / 2 ^ 16) :
    valueBelow i (update (update (update large (i - 8) least) (i - 5) middle) (i - 4) greatest) ≡
      valueBelow (i + 1) large [ZMOD prime] := by
  obtain ⟨place8, place5, place4⟩ := sub_val high
  obtain ⟨below8, below5, below4⟩ := sub_lt high
  obtain ⟨_, not58, not48, not45⟩ := sub_ne high
  have least_eq' : (least.toNat : ℤ) = limbs large (i - 8) - limbs large i := by
    rw [least_eq, Nat.cast_sub room, limbs, limbs]
  have middle_eq' : (middle.toNat : ℤ) = limbs large (i - 5) + ((large i).toNat % 2 ^ 16 : ℕ) * 2 ^ 12 := by
    rw [middle_eq, limbs]
    push_cast
    rfl
  have greatest_eq' : (greatest.toNat : ℤ) = limbs large (i - 4) + ((large i).toNat / 2 ^ 16 : ℕ) := by
    rw [greatest_eq, Nat.cast_add, limbs]
  have split : limbs large i = ((large i).toNat % 2 ^ 16 : ℕ) + ((large i).toNat / 2 ^ 16 : ℕ) * 2 ^ 16 := by
    have parts := Nat.mod_add_div' (large i).toNat (2 ^ 16)
    rw [limbs]
    exact_mod_cast parts.symm
  have here {k : Fin 15} (inside : k.val < i.val) : lower i (limbs large) k = limbs large k := if_pos inside
  obtain ⟨up5, up4, up⟩ := sub_add high
  have reflected := reflect_modEq (number 28 (lower i (limbs large))) (limbs large i) (i.val - 8) split
  rw [up5, up4, up] at reflected
  rw [valueBelow, limbs_update, limbs_update, limbs_update, lower_update_of_lt _ below4, lower_update_of_lt _ below5,
    lower_update_of_lt _ below8, number_update, number_update, number_update, update_of_ne not45, update_of_ne not48,
    update_of_ne not58, here below8, here below5, here below4, valueBelow, number_lower_succ, place8, place5, place4,
    least_eq', middle_eq', greatest_eq']
  convert reflected using 1
  ring

theorem reflect_meets (high : 8 ≤ i.val) (room : (large i).toNat ≤ (large (i - 8)).toNat)
    (room' : (large (i - 5)).toNat + 2 ^ 28 ≤ 2 ^ 64) (room'' : (large (i - 4)).toNat + 2 ^ 48 ≤ 2 ^ 64) :
    (reflect large i).Meets fun after => valueBelow i after ≡ valueBelow (i + 1) large [ZMOD prime] ∧
      (after (i - 8)).toNat = (large (i - 8)).toNat - (large i).toNat ∧
      (after (i - 5)).toNat = (large (i - 5)).toNat + (large i).toNat % 2 ^ 16 * 2 ^ 12 ∧
      (after (i - 4)).toNat = (large (i - 4)).toNat + (large i).toNat / 2 ^ 16 ∧
      ∀ k, k ≠ i - 8 → k ≠ i - 5 → k ≠ i - 4 → after k = large k := by
  obtain ⟨⟨not8, not5⟩, not58, not48, not45⟩ := sub_ne high
  have bits := toNat_low16 (large i)
  have top : (large i >>> 16).toNat = (large i).toNat / 2 ^ 16 := toNat_shiftRight _ _
  have fits5 : (large (i - 5)).toNat + ((large i &&& 0xffff) <<< 12).toNat < 2 ^ 64 := by
    rw [bits]
    omega
  have fits4 : (large (i - 4)).toNat + (large i >>> 16).toNat < 2 ^ 64 := by
    have below : (large i).toNat < 2 ^ 64 := (large i).isLt
    rw [top]
    omega
  unfold reflect
  apply (Meets.minus room).bind
  intro least least_eq
  simp only [update_of_ne not8, update_of_ne not5, update_of_ne not58, update_of_ne not48, update_of_ne not45]
  apply (Meets.plus fits5).bind
  intro middle middle_eq
  apply (Meets.plus fits4).bind
  intro greatest greatest_eq
  rw [bits] at middle_eq
  rw [top] at greatest_eq
  apply Meets.pure
  apply And.intro
  · exact reflect_value high room least_eq middle_eq greatest_eq
  apply And.intro
  · rw [update_of_ne (Ne.symm not48), update_of_ne (Ne.symm not58), update_self, least_eq]
  apply And.intro
  · rw [update_of_ne (Ne.symm not45), update_self, middle_eq]
  apply And.intro
  · rw [update_self, greatest_eq]
  · intro k other8 other5 other4
    rw [update_of_ne other4, update_of_ne other5, update_of_ne other8]

/-- What the reflections have made of the limbs when those from a place on are gone. -/
structure Reflected (large : LargeFieldElement) (place : ℕ) (after : LargeFieldElement) : Prop where
  value : valueBelow place after ≡ valueBelow 15 large [ZMOD prime]
  most : ∀ k : Fin 15, (after k).toNat ≤ (large k).toNat + 2 ^ 28 + 2 ^ 48
  most_before4 : ∀ k : Fin 15, k.val + 4 < place → (after k).toNat ≤ (large k).toNat + 2 ^ 28
  most_before5 : ∀ k : Fin 15, k.val + 5 < place → (after k).toNat ≤ (large k).toNat
  least : ∀ k : Fin 15, (large k).toNat ≤ (after k).toNat + 2 ^ 62 + 2 ^ 49
  least_before8 : ∀ k : Fin 15, k.val + 8 < place → (large k).toNat ≤ (after k).toNat

/-- Limbs that the reflections keep from wrapping around: the lower ones have the bias. -/
def Reflectable (large : LargeFieldElement) : Prop :=
  (∀ k : Fin 15, k.val < 8 → 2 ^ 63 - 2 ^ 36 ≤ (large k).toNat ∧ (large k).toNat ≤ 2 ^ 63 + 2 ^ 62 + 2 ^ 36) ∧
    ∀ k : Fin 15, 8 ≤ k.val → (large k).toNat ≤ 2 ^ 62

/-- How the reflection of the limb at a place changes a limb. -/
structure Changed (place k : ℕ) (before after : BitVec 64) : Prop where
  at5 : k + 5 = place → after.toNat ≤ before.toNat + 2 ^ 28
  at4 : k + 4 = place → after.toNat ≤ before.toNat + 2 ^ 48
  most : k + 5 ≠ place → k + 4 ≠ place → after.toNat ≤ before.toNat
  at8 : k + 8 = place → before.toNat ≤ after.toNat + 2 ^ 62 + 2 ^ 49
  least : k + 8 ≠ place → before.toNat ≤ after.toNat

variable {after : LargeFieldElement}

theorem changed_of_reflect {next : LargeFieldElement} (high : 8 ≤ i.val) (limb : (after i).toNat ≤ 2 ^ 62 + 2 ^ 49)
    (next8 : (next (i - 8)).toNat = (after (i - 8)).toNat - (after i).toNat)
    (next5 : (next (i - 5)).toNat = (after (i - 5)).toNat + (after i).toNat % 2 ^ 16 * 2 ^ 12)
    (next4 : (next (i - 4)).toNat = (after (i - 4)).toNat + (after i).toNat / 2 ^ 16)
    (others : ∀ k, k ≠ i - 8 → k ≠ i - 5 → k ≠ i - 4 → next k = after k) (k : Fin 15) :
    Changed i k (after k) (next k) := by
  obtain ⟨place8, place5, place4⟩ := sub_val high
  by_cases is8 : k = i - 8
  · have place : k.val = i.val - 8 := is8 ▸ place8
    rw [← is8] at next8
    clear next5 next4
    constructor <;> omega
  by_cases is5 : k = i - 5
  · have place : k.val = i.val - 5 := is5 ▸ place5
    rw [← is5] at next5
    clear next8 next4 limb
    constructor <;> omega
  by_cases is4 : k = i - 4
  · have place : k.val = i.val - 4 := is4 ▸ place4
    rw [← is4] at next4
    clear next8 next5
    constructor <;> omega
  have same : next k = after k := others k is8 is5 is4
  have elsewhere : k.val ≠ i.val - 8 := fun equal => is8 (Fin.ext (equal.trans place8.symm))
  clear next8 next5 next4
  rw [same]
  constructor <;> omega

theorem Reflected.of_changed {next : LargeFieldElement} (reflected : Reflected large (i + 1) after)
    (value : valueBelow i next ≡ valueBelow (i + 1) after [ZMOD prime])
    (changed : ∀ k : Fin 15, Changed i k (after k) (next k)) : Reflected large i next where
  value := value.trans reflected.value
  most := by
    intro k
    obtain ⟨at5, at4, most, _, _⟩ := changed k
    have before := reflected.most k
    have before4 := reflected.most_before4 k
    have before5 := reflected.most_before5 k
    omega
  most_before4 := by
    intro k inside
    obtain ⟨at5, at4, most, _, _⟩ := changed k
    have before4 := reflected.most_before4 k
    have before5 := reflected.most_before5 k
    omega
  most_before5 := by
    intro k inside
    have same := (changed k).most
    have before5 := reflected.most_before5 k
    omega
  least := by
    intro k
    obtain ⟨_, _, _, at8, least⟩ := changed k
    have before := reflected.least k
    have before8 := reflected.least_before8 k
    omega
  least_before8 := by
    intro k inside
    have same := (changed k).least
    have before8 := reflected.least_before8 k
    omega

theorem Reflectable.most (reflectable : Reflectable large) (k : Fin 15) :
    (large k).toNat ≤ 2 ^ 63 + 2 ^ 62 + 2 ^ 36 := by
  by_cases inside : k.val < 8
  · exact (reflectable.1 k inside).2
  · exact (reflectable.2 k (by omega)).trans (by decide)

theorem Reflected.step (reflectable : Reflectable large) (high : 8 ≤ i.val)
    (reflected : Reflected large (i + 1) after) : (reflect after i).Meets (Reflected large i) := by
  obtain ⟨place8, place5, place4⟩ := sub_val high
  have limb : (after i).toNat ≤ 2 ^ 62 + 2 ^ 49 := by
    have most := reflected.most i
    have bound := reflectable.2 i high
    omega
  have room : (after i).toNat ≤ (after (i - 8)).toNat := by
    have least := reflected.least_before8 (i - 8) (by omega)
    have bound := (reflectable.1 (i - 8) (by omega)).1
    omega
  have room' : (after (i - 5)).toNat + 2 ^ 28 ≤ 2 ^ 64 := by
    have most := reflected.most_before5 (i - 5) (by omega)
    have bound := reflectable.most (i - 5)
    omega
  have room'' : (after (i - 4)).toNat + 2 ^ 48 ≤ 2 ^ 64 := by
    have most := reflected.most_before4 (i - 4) (by omega)
    have bound := reflectable.most (i - 4)
    omega
  apply (reflect_meets high room room' room'').mono
  intro next ⟨value, next8, next5, next4, others⟩
  exact reflected.of_changed value (changed_of_reflect high limb next8 next5 next4 others)

theorem reflects_meet (reflectable : Reflectable large) :
    ([14, 13, 12, 11, 10, 9, 8].foldlM reflect large).Meets (Reflected large 8) := by
  have indices : ∀ i : Fin [(14 : Fin 15), 13, 12, 11, 10, 9, 8].length,
      ([(14 : Fin 15), 13, 12, 11, 10, 9, 8][i]).val = 14 - i ∧ i.val < 7 := by decide
  apply Meets.foldlM (fun count after => Reflected large (15 - count) after)
  · exact ⟨Int.ModEq.refl _, fun _ => by omega, fun _ _ => by omega, fun _ _ => by omega, fun _ => by omega,
      fun _ _ => by omega⟩
  · intro count after reflected
    obtain ⟨place, inside⟩ := indices count
    have next : 15 - (count.val + 1) = ([(14 : Fin 15), 13, 12, 11, 10, 9, 8][count]).val := by omega
    have here : 15 - count.val = ([(14 : Fin 15), 13, 12, 11, 10, 9, 8][count]).val + 1 := by omega
    rw [here] at reflected
    rw [next]
    exact reflected.step reflectable (by omega)

/-! ### The carry chain -/

/-- What the carry chain has done when it is at a place. -/
structure Settled (large : LargeFieldElement) (place : ℕ) (state : LargeFieldElement × FieldElement) : Prop where
  value : ∀ k : Fin 15, k.val = place →
    valueOf state.2 + limbs state.1 k * 2 ^ (28 * place) = valueBelow (place + 1) large - limbs large 0
  before : state.1 0 = large 0
  here : ∀ k : Fin 15, k.val = place → (state.1 k).toNat ≤ (large k).toNat + (2 ^ 36 - 1)
  after : ∀ k : Fin 15, place < k.val → state.1 k = large k
  small : ∀ k, (state.2 k).toNat < 2 ^ 28
  clear : ∀ k : Fin 8, k.val = 0 ∨ place ≤ k.val → state.2 k = 0

theorem wide_succ_val (i : Fin 8) : (wide i + 1).val = i.val + 1 := by
  revert i
  decide

theorem toNat_settled (x : BitVec 64) :
    ((x &&& kBottom28Bits.setWidth 64).setWidth 32).toNat = x.toNat % 2 ^ 28 := by
  have low : (x &&& kBottom28Bits.setWidth 64).toNat = x.toNat % 2 ^ 28 := by
    rw [BitVec.toNat_and]
    exact Nat.and_two_pow_sub_one_eq_mod x.toNat 28
  rw [BitVec.toNat_setWidth, low]
  omega

theorem Settled.step {state : LargeFieldElement × FieldElement} {i : Fin 8}
    (fits : (large (wide i + 1)).toNat ≤ 2 ^ 64 - 2 ^ 36) (positive : 0 < i.val) (settled : Settled large i state) :
    (settle state i).Meets (Settled large (i + 1)) := by
  have place : (wide i).val = i.val := rfl
  have next := wide_succ_val i
  have apart {j k : Fin 15} (different : j.val ≠ k.val) : j ≠ k := fun same => different (congrArg Fin.val same)
  have untouched := settled.after (wide i + 1) (by omega)
  have carried : (state.1 (wide i) >>> 28).toNat = (state.1 (wide i)).toNat / 2 ^ 28 := toNat_shiftRight _ _
  have width := (state.1 (wide i)).isLt
  have value := settled.value (wide i) place
  have bits := toNat_settled (state.1 (wide i))
  unfold settle
  apply (Meets.plus (x := state.1 (wide i + 1)) (y := state.1 (wide i) >>> 28) (by rw [untouched]; omega)).bind
  intro sum sum_eq
  rw [untouched, carried] at sum_eq
  apply Meets.pure
  constructor
  · intro k here
    have same : k = wide i + 1 := Fin.ext (by omega)
    have zero : limbs state.2 i = 0 := by
      rw [limbs, settled.clear i (Or.inr (Nat.le_refl _))]
      rfl
    have below := number_lower_succ (w := 28) (limbs large) (wide i + 1)
    have above : limbs (update state.1 (wide i + 1) sum) k = limbs large (wide i + 1) +
        ((state.1 (wide i)).toNat / 2 ^ 28 : ℕ) := by
      rw [same, limbs, update_self, sum_eq, Nat.cast_add, limbs]
    have parts : limbs state.1 (wide i) = ((state.1 (wide i)).toNat % 2 ^ 28 : ℕ) +
        ((state.1 (wide i)).toNat / 2 ^ 28 : ℕ) * 2 ^ 28 := by
      rw [limbs]
      omega
    rw [next] at below
    rw [above, valueBelow, below, valueOf, limbs_update, number_update, zero, sub_zero,
      update_of_ne (apart (by omega)), bits]
    rw [valueOf, valueBelow, parts] at value
    rw [mul_add 28 i.val 1, pow_add]
    linear_combination value
  · rw [← settled.before]
    exact update_of_ne (apart (by rw [next]; exact Nat.succ_ne_zero _)).symm _ _
  · intro k here
    have same : k = wide i + 1 := Fin.ext (by omega)
    change (update state.1 (wide i + 1) sum k).toNat ≤ _
    rw [same, update_self, sum_eq]
    omega
  · intro k later
    change update state.1 (wide i + 1) sum k = _
    rw [update_of_ne (apart (by omega))]
    exact settled.after k (by omega)
  · intro k
    change (update state.2 i _ k).toNat < _
    by_cases same : k = i
    · rw [same, update_self, update_of_ne (apart (by omega)), bits]
      exact Nat.mod_lt _ (by decide)
    · rw [update_of_ne same]
      exact settled.small k
  · intro k outside
    change update state.2 i _ k = 0
    have different : k ≠ i := fun same => by
      rw [same] at outside
      omega
    rw [update_of_ne different]
    exact settled.clear k (by omega)

theorem settles_meet (fits : ∀ k, (large k).toNat ≤ 2 ^ 64 - 2 ^ 36) :
    ([1, 2, 3, 4, 5, 6, 7].foldlM settle (large, fun _ => 0)).Meets (Settled large 8) := by
  have indices : ∀ i : Fin [(1 : Fin 8), 2, 3, 4, 5, 6, 7].length,
      ([(1 : Fin 8), 2, 3, 4, 5, 6, 7][i]).val = i + 1 := by decide
  apply Meets.foldlM (fun count state => Settled large (count + 1) state)
  · constructor
    · intro k here
      have same : k = 1 := Fin.ext here
      have zero : valueOf (fun _ => 0) = 0 := number_zero
      have below := number_lower_succ (w := 28) (limbs large) 0
      have below' := number_lower_succ (w := 28) (limbs large) 1
      have nothing : number 28 (lower 0 (limbs large)) = 0 := number_zero
      simp only [Fin.val_zero, Fin.val_one, zero_add, one_add_one_eq_two, nothing] at below below'
      rw [zero, same, valueBelow]
      change 0 + limbs large 1 * 2 ^ (28 * 1) = number 28 (lower 2 (limbs large)) - limbs large 0
      rw [below', below]
      ring
    · rfl
    · exact fun k _ => Nat.le_add_right _ _
    · exact fun _ _ => rfl
    · exact fun _ => Nat.two_pow_pos 28
    · exact fun _ _ => rfl
  · intro count state settled
    rw [← indices count] at settled ⊢
    exact settled.step (fits _) (by rw [indices count]; exact Nat.succ_pos _)

/-! ### The whole reduction -/

/-- What the bias adds to a limb. -/
def bias (k : Fin 15) : ℕ := if inside : k.val < 8 then (kZero63ModP ⟨k, inside⟩).toNat else 0

theorem number_bias : number 28 (fun k => (bias k : ℤ)) ≡ 0 [ZMOD prime] := by decide +kernel

theorem bias_bounds : ∀ k : Fin 15, k.val < 8 → 2 ^ 63 - 2 ^ 36 ≤ bias k ∧ bias k ≤ 2 ^ 63 + 2 ^ 36 := by decide

theorem biases_meet (fits : ∀ k, (large k).toNat ≤ 2 ^ 62) :
    ((List.finRange 8).foldlM (fun (large : LargeFieldElement) i => do
      let sum ← plus (large (wide i)) (kZero63ModP i)
      return update large (wide i) sum) large).Meets fun after =>
        number 28 (limbs after) ≡ number 28 (limbs large) [ZMOD prime] ∧ Reflectable after := by
  have every : ((List.finRange 8).foldlM (fun (large : LargeFieldElement) i => do
      let sum ← plus (large (wide i)) (kZero63ModP i)
      return update large (wide i) sum) large).Meets fun after =>
        ∀ k : Fin 15, (after k).toNat = (large k).toNat + if k.val < 8 then bias k else 0 := by
    apply Meets.foldlM (fun count (after : LargeFieldElement) =>
      ∀ k : Fin 15, (after k).toNat = (large k).toNat + if k.val < count then bias k else 0)
    · exact fun _ => rfl
    · intro i after biased
      have place : (List.finRange 8)[i].val = i.val := by simp
      generalize (List.finRange 8)[i] = index at place ⊢
      have here := biased (wide index)
      have untouched : (wide index).val = i.val := place
      have added : bias (wide index) = (kZero63ModP index).toNat := dif_pos index.isLt
      have bounds := bias_bounds (wide index) index.isLt
      have bound := fits (wide index)
      rw [if_neg (by omega)] at here
      apply (Meets.plus (x := after (wide index)) (y := kZero63ModP index) (by omega)).bind
      intro sum sum_eq
      apply Meets.pure
      intro k
      by_cases same : k = wide index
      · rw [same, update_self, if_pos (by omega)]
        omega
      · have different : k.val ≠ i.val := fun equal => same (Fin.ext (equal.trans untouched.symm))
        rw [update_of_ne same, biased k]
        simp only [show k.val < i.val + 1 ↔ k.val < i.val by omega]
  apply every.mono
  intro after biased
  apply And.intro
  · have sum : limbs after = fun k => limbs large k + (bias k : ℤ) := by
      funext k
      rw [limbs, biased k, limbs]
      split
      next => rw [Nat.cast_add]
      next outside => rw [bias, dif_neg outside, Nat.cast_zero, Nat.add_zero, add_zero]
    rw [sum, number_add]
    simpa only [add_zero] using number_bias.add_left (number 28 (limbs large))
  · apply And.intro
    · intro k inside
      have here := biased k
      have bounds := bias_bounds k inside
      have bound := fits k
      rw [if_pos inside] at here
      omega
    · intro k high
      rw [biased k, if_neg (by omega)]
      exact fits k

theorem reduceLarge_meets (fits : ∀ k, (large k).toNat ≤ 2 ^ 62) :
    (reduceLarge large).Meets fun out => valueOf out ≡ number 28 (limbs large) [ZMOD prime] ∧
      ∀ j, (out j).toNat ≤ 2 ^ 29 - 2 := by
  unfold reduceLarge
  apply (biases_meet fits).bind
  rintro biased ⟨biased_eq, reflectable⟩
  apply (reflects_meet reflectable).bind
  intro reflected reflects
  have lowest := reflects.least 0
  have lowest' := (reflectable.1 0 (by decide)).1
  have upper (k : Fin 15) : (reflected k).toNat ≤ 2 ^ 64 - 2 ^ 36 := by
    have most := reflects.most k
    have bound := reflectable.most k
    omega
  have upper' (k : Fin 15) : (update reflected 8 0 k).toNat ≤ 2 ^ 64 - 2 ^ 36 := by
    by_cases same : k = 8
    · rw [same, update_self]
      decide
    · rw [update_of_ne same]
      exact upper k
  have cleared : valueBelow 9 (update reflected 8 0) = valueBelow 8 reflected := by
    have last := number_lower_succ (w := 28) (limbs (update reflected 8 0)) 8
    rw [limbs_update, update_self] at last
    rw [valueBelow, limbs_update]
    apply last.trans
    rw [lower_update_of_le _ (Nat.le_refl 8)]
    change valueBelow 8 reflected + 0 * 2 ^ 224 = valueBelow 8 reflected
    rw [zero_mul, add_zero]
  apply (settles_meet upper').bind
  rintro ⟨large', out⟩ settled
  have value := settled.value 8 rfl
  have in0_eq : large' 0 = reflected 0 := settled.before
  have in8_le : (large' 8).toNat < 2 ^ 36 := Nat.lt_of_le_of_lt (settled.here 8 rfl) (by
    rw [update_self]
    decide)
  have small (k : Fin 8) : (out k).toNat < 2 ^ 28 := settled.small k
  have nothing : out 0 = 0 := settled.clear 0 (Or.inl rfl)
  have first : limbs (update reflected 8 0) 0 = (reflected 0).toNat := rfl
  have total : valueOf out + (large' 8).toNat * 2 ^ 224 + (reflected 0).toNat ≡
      number 28 (limbs large) [ZMOD prime] := by
    have moved : valueOf out + (large' 8).toNat * 2 ^ 224 = valueBelow 9 (update reflected 8 0) -
      limbs (update reflected 8 0) 0 := value
    rw [moved, cleared, first, sub_add_cancel]
    apply reflects.value.trans
    rw [valueBelow, lower_all]
    exact biased_eq
  have bits3 : ((large' 8 &&& 0xffff).setWidth 32 <<< 12).toNat = (large' 8).toNat % 2 ^ 16 * 2 ^ 12 := by
    have low : (large' 8 &&& 0xffff).toNat = (large' 8).toNat % 2 ^ 16 := by
      rw [BitVec.toNat_and]
      exact Nat.and_two_pow_sub_one_eq_mod _ 16
    rw [BitVec.toNat_shiftLeft, BitVec.toNat_setWidth, low, Nat.shiftLeft_eq]
    omega
  have bits4 : ((large' 8 >>> 16).setWidth 32).toNat = (large' 8).toNat / 2 ^ 16 := by
    rw [BitVec.toNat_setWidth, toNat_shiftRight, Nat.mod_eq_of_lt (by omega)]
  dsimp only
  apply (Meets.minus (x := large' 0) (y := large' 8) (by rw [in0_eq]; omega)).bind
  intro in0 in0_eq'
  rw [in0_eq] at in0_eq'
  have bits0 := toNat_settled in0
  have bits1 : (((in0 >>> 28) &&& kBottom28Bits.setWidth 64).setWidth 32).toNat = in0.toNat / 2 ^ 28 % 2 ^ 28 := by
    rw [toNat_settled, toNat_shiftRight]
  have bits2 : ((in0 >>> 56).setWidth 32).toNat = in0.toNat / 2 ^ 56 := by
    have width := in0.isLt
    rw [BitVec.toNat_setWidth, toNat_shiftRight, Nat.mod_eq_of_lt (by omega)]
  have small1 := small 1
  have small2 := small 2
  have small3 := small 3
  have small4 := small 4
  have width := in0.isLt
  simp only [ne_eq, Fin.reduceEq, not_false_eq_true, update_of_ne]
  apply (Meets.plus (x := out 3) (y := (large' 8 &&& 0xffff).setWidth 32 <<< 12) (by omega)).bind
  intro out3 out3_eq
  apply (Meets.plus (x := out 4) (y := (large' 8 >>> 16).setWidth 32) (by omega)).bind
  intro out4 out4_eq
  apply (Meets.plus (x := out 1) (y := ((in0 >>> 28) &&& kBottom28Bits.setWidth 64).setWidth 32) (by omega)).bind
  intro out1 out1_eq
  apply (Meets.plus (x := out 2) (y := (in0 >>> 56).setWidth 32) (by omega)).bind
  intro out2 out2_eq
  apply Meets.pure
  apply And.intro
  · apply Int.ModEq.trans _ total
    rw [valueOf_eq, valueOf_eq out, nothing]
    simp only [update_self, ne_eq, Fin.reduceEq, not_false_eq_true, update_of_ne, out1_eq, out2_eq, out3_eq, out4_eq,
      bits0, bits1, bits2, bits3, bits4]
    rw [Int.modEq_iff_dvd]
    apply Dvd.intro ((large' 8).toNat : ℤ)
    have parts0 : (in0.toNat : ℤ) = (in0.toNat % 2 ^ 28 : ℕ) + (in0.toNat / 2 ^ 28 % 2 ^ 28 : ℕ) * 2 ^ 28 +
        (in0.toNat / 2 ^ 56 : ℕ) * 2 ^ 56 := by omega
    have parts8 : ((large' 8).toNat : ℤ) =
        ((large' 8).toNat % 2 ^ 16 : ℕ) + ((large' 8).toNat / 2 ^ 16 : ℕ) * 2 ^ 16 := by omega
    have difference : (in0.toNat : ℤ) = (reflected 0).toNat - (large' 8).toNat := by omega
    have zero : ((0#32).toNat : ℤ) = 0 := rfl
    change _ = ((0#32).toNat : ℤ) + _ + _ + _ + _ + _ + _ + _ + _ + _ - _
    rw [zero, prime]
    push_cast
    push_cast at parts0 parts8
    linear_combination difference - parts0 - 2 ^ 96 * parts8
  · intro j
    have small5 := small 5
    have small6 := small 6
    have small7 := small 7
    fin_cases j
    all_goals
      simp only [Fin.reduceFinMk, Fin.zero_eta, Fin.mk_one, update_self, ne_eq, Fin.reduceEq, not_false_eq_true,
        update_of_ne, out1_eq, out2_eq, out3_eq, out4_eq, bits0, bits1, bits2, bits3, bits4]
      omega

end Libchrome.Crypto.P224
