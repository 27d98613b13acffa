import Libchrome.Crypto.P224.Negation
import Libchrome.Library.Der

/-! `Get224Bits` and `Put224Bits`: eight limbs of 28 bits, and seven words in network order. -/

namespace Libchrome.Crypto.P224
open Library

/-- The bytes of a word after `HostToNet32`. -/
def netBytes (word : BitVec 32) : List (BitVec 8) :=
  [word.extractLsb' 24 8, word.extractLsb' 16 8, word.extractLsb' 8 8, word.extractLsb' 0 8]

/-- The words of `Put224Bits`, in host order. -/
def putWords (a : FieldElement) : Fin 7 → BitVec 32 :=
  ![a 6 >>> 24 ||| a 7 <<< 4,
    a 5 >>> 20 ||| a 6 <<< 8,
    a 4 >>> 16 ||| a 5 <<< 12,
    a 3 >>> 12 ||| a 4 <<< 16,
    a 2 >>> 8 ||| a 3 <<< 20,
    a 1 >>> 4 ||| a 2 <<< 24,
    a 0 >>> 0 ||| a 1 <<< 28]

def put224Bits (a : FieldElement) : List (BitVec 8) := (List.ofFn fun i => netBytes (putWords a i)).flatten

/-! ### Words and bytes -/

theorem hostWord_netBytes (word : BitVec 32) (rest : List (BitVec 8)) : hostWord (netBytes word ++ rest) 0 = word := by
  ext i inside
  simp only [hostWord, netBytes, List.cons_append, List.getD_cons_zero, List.getD_cons_succ, Nat.mul_zero, Nat.zero_add]
  grind

theorem netBytes_hostWord (b₀ b₁ b₂ b₃ : BitVec 8) (rest : List (BitVec 8)) :
    netBytes (hostWord (b₀ :: b₁ :: b₂ :: b₃ :: rest) 0) = [b₀, b₁, b₂, b₃] := by
  simp only [hostWord, netBytes, List.getD_cons_zero, List.getD_cons_succ, Nat.mul_zero, Nat.zero_add, List.cons.injEq,
    and_true]
  refine ⟨?_, ?_, ?_, ?_⟩ <;> ext i inside <;> grind

theorem hostWord_succ (b₀ b₁ b₂ b₃ : BitVec 8) (rest : List (BitVec 8)) (index : ℕ) :
    hostWord (b₀ :: b₁ :: b₂ :: b₃ :: rest) (index + 1) = hostWord rest index := rfl

theorem exists_word {count : ℕ} {string : List (BitVec 8)} (whole : string.length = 4 * (count + 1)) :
    ∃ b₀ b₁ b₂ b₃ rest, string = b₀ :: b₁ :: b₂ :: b₃ :: rest ∧ rest.length = 4 * count := by
  rcases string with _ | ⟨b₀, _ | ⟨b₁, _ | ⟨b₂, _ | ⟨b₃, rest⟩⟩⟩⟩ <;>
    simp only [List.length_cons, List.length_nil] at whole
  iterate 4 omega
  exact ⟨b₀, b₁, b₂, b₃, rest, rfl, by omega⟩

/-- The words of a string are its bytes. -/
theorem flatten_hostWords (count : ℕ) {string : List (BitVec 8)} (whole : string.length = 4 * count) :
    (List.ofFn fun i : Fin count => netBytes (hostWord string i)).flatten = string := by
  induction count generalizing string with
  | zero => exact (List.eq_nil_of_length_eq_zero whole).symm
  | succ count ih =>
    obtain ⟨b₀, b₁, b₂, b₃, rest, rfl, shorter⟩ := exists_word whole
    rw [List.ofFn_succ, List.flatten_cons, Fin.val_zero, netBytes_hostWord]
    simp only [Fin.val_succ, hostWord_succ, ih shorter, List.cons_append, List.nil_append]

theorem hostWord_flatten {count : ℕ} (words : Fin count → BitVec 32) (i : Fin count) :
    hostWord (List.ofFn fun i => netBytes (words i)).flatten i = words i := by
  induction count with
  | zero => exact i.elim0
  | succ count ih =>
    rw [List.ofFn_succ, List.flatten_cons]
    cases i using Fin.cases with
    | zero => exact hostWord_netBytes _ _
    | succ i => exact ih (fun i => words i.succ) i

/-! ### Limbs and words -/

/-- What is shifted up goes beside what is below. -/
theorem toNat_or_shiftLeft {low high : BitVec 32} {count : ℕ} (below : low.toNat < 2 ^ count) (fits : count ≤ 32) :
    (low ||| high <<< count).toNat = low.toNat + high.toNat % 2 ^ (32 - count) * 2 ^ count := by
  have shifted : (high <<< count).toNat = (high.toNat % 2 ^ (32 - count)) <<< count := by
    rw [BitVec.toNat_shiftLeft, Nat.shiftLeft_eq, Nat.shiftLeft_eq, ← Nat.mul_mod_mul_right, ← pow_add,
      Nat.sub_add_cancel fits]
  rw [BitVec.toNat_or, shifted, Nat.or_comm, ← Nat.shiftLeft_add_eq_or_of_lt below, Nat.shiftLeft_eq, Nat.add_comm]

theorem toNat_get {high low : BitVec 32} (count : ℕ) (fits : count ≤ 28) :
    ((high <<< count ||| low >>> (32 - count)) &&& kBottom28Bits).toNat =
      low.toNat / 2 ^ (32 - count) + high.toNat % 2 ^ (28 - count) * 2 ^ count := by
  have below : low.toNat / 2 ^ (32 - count) < 2 ^ count := by
    rw [Nat.div_lt_iff_lt_mul (by positivity), ← pow_add, Nat.add_sub_cancel' (by omega)]
    exact low.isLt
  have shifted : (low >>> (32 - count)).toNat = low.toNat / 2 ^ (32 - count) := by
    rw [BitVec.toNat_ushiftRight, Nat.shiftRight_eq_div_pow]
  have whole : 2 ^ 28 = 2 ^ (28 - count) * 2 ^ count := by rw [← pow_add, Nat.sub_add_cancel fits]
  have wide : 2 ^ (28 - count) ∣ 2 ^ (32 - count) := pow_dvd_pow 2 (by omega)
  have rest := Nat.mod_lt high.toNat (show 0 < 2 ^ (28 - count) by positivity)
  rw [toNat_bottom, BitVec.or_comm, toNat_or_shiftLeft (shifted.symm ▸ below) (by omega), shifted, whole,
    Nat.add_mod, Nat.mul_mod_mul_right, Nat.mod_mod_of_dvd _ wide, Nat.mod_add_mod]
  apply Nat.mod_eq_of_lt
  nlinarith

theorem toNat_put {low high : BitVec 32} (count : ℕ) (fits : count ≤ 28) (small : low.toNat < 2 ^ 28) :
    (low >>> count ||| high <<< (28 - count)).toNat =
      low.toNat / 2 ^ count + high.toNat % 2 ^ (4 + count) * 2 ^ (28 - count) := by
  have below : (low >>> count).toNat < 2 ^ (28 - count) := by
    rw [BitVec.toNat_ushiftRight, Nat.shiftRight_eq_div_pow, Nat.div_lt_iff_lt_mul (by positivity), ← pow_add,
      Nat.sub_add_cancel fits]
    exact small
  rw [toNat_or_shiftLeft below (by omega), BitVec.toNat_ushiftRight, Nat.shiftRight_eq_div_pow,
    show 32 - (28 - count) = 4 + count by omega]

/-- The limbs that are read, by the words. -/
theorem toNat_get224Bits (words : ℕ → BitVec 32) :
    (get224Bits words 0).toNat = (words 6).toNat % 2 ^ 28 ∧
    (get224Bits words 1).toNat = (words 6).toNat / 2 ^ 28 + (words 5).toNat % 2 ^ 24 * 2 ^ 4 ∧
    (get224Bits words 2).toNat = (words 5).toNat / 2 ^ 24 + (words 4).toNat % 2 ^ 20 * 2 ^ 8 ∧
    (get224Bits words 3).toNat = (words 4).toNat / 2 ^ 20 + (words 3).toNat % 2 ^ 16 * 2 ^ 12 ∧
    (get224Bits words 4).toNat = (words 3).toNat / 2 ^ 16 + (words 2).toNat % 2 ^ 12 * 2 ^ 16 ∧
    (get224Bits words 5).toNat = (words 2).toNat / 2 ^ 12 + (words 1).toNat % 2 ^ 8 * 2 ^ 20 ∧
    (get224Bits words 6).toNat = (words 1).toNat / 2 ^ 8 + (words 0).toNat % 2 ^ 4 * 2 ^ 24 ∧
    (get224Bits words 7).toNat = (words 0).toNat / 2 ^ 4 := by
  refine ⟨toNat_bottom _, toNat_get 4 (by decide), toNat_get 8 (by decide), toNat_get 12 (by decide),
    toNat_get 16 (by decide), toNat_get 20 (by decide), toNat_get 24 (by decide), ?_⟩
  have small := (words 0).isLt
  have top : (get224Bits words 7).toNat = _ := toNat_bottom _
  rw [top, BitVec.toNat_ushiftRight, Nat.shiftRight_eq_div_pow]
  omega

/-- The words that are written, by the limbs. -/
theorem toNat_putWords {a : FieldElement} (below : Below a (2 ^ 28)) :
    (putWords a 6).toNat = (a 0).toNat / 2 ^ 0 + (a 1).toNat % 2 ^ 4 * 2 ^ 28 ∧
    (putWords a 5).toNat = (a 1).toNat / 2 ^ 4 + (a 2).toNat % 2 ^ 8 * 2 ^ 24 ∧
    (putWords a 4).toNat = (a 2).toNat / 2 ^ 8 + (a 3).toNat % 2 ^ 12 * 2 ^ 20 ∧
    (putWords a 3).toNat = (a 3).toNat / 2 ^ 12 + (a 4).toNat % 2 ^ 16 * 2 ^ 16 ∧
    (putWords a 2).toNat = (a 4).toNat / 2 ^ 16 + (a 5).toNat % 2 ^ 20 * 2 ^ 12 ∧
    (putWords a 1).toNat = (a 5).toNat / 2 ^ 20 + (a 6).toNat % 2 ^ 24 * 2 ^ 8 ∧
    (putWords a 0).toNat = (a 6).toNat / 2 ^ 24 + (a 7).toNat % 2 ^ 28 * 2 ^ 4 :=
  ⟨toNat_put 0 (by decide) (below 0), toNat_put 4 (by decide) (below 1), toNat_put 8 (by decide) (below 2),
    toNat_put 12 (by decide) (below 3), toNat_put 16 (by decide) (below 4), toNat_put 20 (by decide) (below 5),
    toNat_put 24 (by decide) (below 6)⟩

theorem putWords_get224Bits (words : ℕ → BitVec 32) (i : Fin 7) : putWords (get224Bits words) i = words i := by
  apply BitVec.eq_of_toNat_eq
  obtain ⟨l0, l1, l2, l3, l4, l5, l6, l7⟩ := toNat_get224Bits words
  obtain ⟨w6, w5, w4, w3, w2, w1, w0⟩ := toNat_putWords (below_get224Bits words)
  have b0 := (words 0).isLt
  have b1 := (words 1).isLt
  have b2 := (words 2).isLt
  have b3 := (words 3).isLt
  have b4 := (words 4).isLt
  have b5 := (words 5).isLt
  have b6 := (words 6).isLt
  fin_cases i
  · change (putWords _ 0).toNat = (words 0).toNat
    omega
  · change (putWords _ 1).toNat = (words 1).toNat
    omega
  · change (putWords _ 2).toNat = (words 2).toNat
    omega
  · change (putWords _ 3).toNat = (words 3).toNat
    omega
  · change (putWords _ 4).toNat = (words 4).toNat
    omega
  · change (putWords _ 5).toNat = (words 5).toNat
    omega
  · change (putWords _ 6).toNat = (words 6).toNat
    omega

/-- The two limbs that a word was put together of. -/
theorem halves (count : ℕ) (fits : count ≤ 28) {word low high : ℕ} (small : low < 2 ^ 28)
    (same : word = low / 2 ^ count + high % 2 ^ (4 + count) * 2 ^ (28 - count)) :
    word / 2 ^ (28 - count) = high % 2 ^ (4 + count) ∧ word % 2 ^ (28 - count) = low / 2 ^ count := by
  have below : low / 2 ^ count < 2 ^ (28 - count) := by
    rwa [Nat.div_lt_iff_lt_mul (by positivity), ← pow_add, Nat.sub_add_cancel fits]
  rw [same, Nat.add_mul_div_right _ _ (by positivity), Nat.div_eq_of_lt below, Nat.zero_add,
    Nat.add_mul_mod_self_right, Nat.mod_eq_of_lt below]
  exact ⟨rfl, rfl⟩

/-- The limbs come back. -/
theorem get224Bits_putWords {a : FieldElement} (below : Below a (2 ^ 28)) {words : ℕ → BitVec 32}
    (same : ∀ i : Fin 7, words i = putWords a i) : get224Bits words = a := by
  obtain ⟨l0, l1, l2, l3, l4, l5, l6, l7⟩ := toNat_get224Bits words
  obtain ⟨w6, w5, w4, w3, w2, w1, w0⟩ := toNat_putWords below
  rw [← same] at w0 w1 w2 w3 w4 w5 w6
  have h6 : (words 6).toNat / 2 ^ 28 = (a 1).toNat % 2 ^ 4 ∧ (words 6).toNat % 2 ^ 28 = (a 0).toNat / 2 ^ 0 :=
    halves 0 (by decide) (below 0) w6
  have h5 : (words 5).toNat / 2 ^ 24 = (a 2).toNat % 2 ^ 8 ∧ (words 5).toNat % 2 ^ 24 = (a 1).toNat / 2 ^ 4 :=
    halves 4 (by decide) (below 1) w5
  have h4 : (words 4).toNat / 2 ^ 20 = (a 3).toNat % 2 ^ 12 ∧ (words 4).toNat % 2 ^ 20 = (a 2).toNat / 2 ^ 8 :=
    halves 8 (by decide) (below 2) w4
  have h3 : (words 3).toNat / 2 ^ 16 = (a 4).toNat % 2 ^ 16 ∧ (words 3).toNat % 2 ^ 16 = (a 3).toNat / 2 ^ 12 :=
    halves 12 (by decide) (below 3) w3
  have h2 : (words 2).toNat / 2 ^ 12 = (a 5).toNat % 2 ^ 20 ∧ (words 2).toNat % 2 ^ 12 = (a 4).toNat / 2 ^ 16 :=
    halves 16 (by decide) (below 4) w2
  have h1 : (words 1).toNat / 2 ^ 8 = (a 6).toNat % 2 ^ 24 ∧ (words 1).toNat % 2 ^ 8 = (a 5).toNat / 2 ^ 20 :=
    halves 20 (by decide) (below 5) w1
  have h0 : (words 0).toNat / 2 ^ 4 = (a 7).toNat % 2 ^ 28 ∧ (words 0).toNat % 2 ^ 4 = (a 6).toNat / 2 ^ 24 :=
    halves 24 (by decide) (below 6) w0
  have top := Nat.mod_eq_of_lt (below 7)
  funext j
  apply BitVec.eq_of_toNat_eq
  fin_cases j
  · exact l0.trans (h6.2.trans (Nat.div_one _))
  · exact l1.trans (by rw [h6.1, h5.2]; exact Nat.mod_add_div' _ _)
  · exact l2.trans (by rw [h5.1, h4.2]; exact Nat.mod_add_div' _ _)
  · exact l3.trans (by rw [h4.1, h3.2]; exact Nat.mod_add_div' _ _)
  · exact l4.trans (by rw [h3.1, h2.2]; exact Nat.mod_add_div' _ _)
  · exact l5.trans (by rw [h2.1, h1.2]; exact Nat.mod_add_div' _ _)
  · exact l6.trans (by rw [h1.1, h0.2]; exact Nat.mod_add_div' _ _)
  · exact l7.trans (h0.1.trans top)

/-! ### Numbers -/

theorem number_append (high low : List (BitVec 8)) :
    Der.number (high ++ low) = Der.number high * 256 ^ low.length + Der.number low := by
  induction low using List.reverseRecOn with
  | nil => rw [List.append_nil, List.length_nil, pow_zero, mul_one]; rfl
  | append_singleton low last ih =>
    rw [← List.append_assoc, Der.number_concat, Der.number_concat, ih, List.length_append,
      List.length_singleton, pow_succ]
    ring

theorem toNat_hostWord (b₀ b₁ b₂ b₃ : BitVec 8) (rest : List (BitVec 8)) :
    (hostWord (b₀ :: b₁ :: b₂ :: b₃ :: rest) 0).toNat = Der.number [b₀, b₁, b₂, b₃] := by
  have beside {width : ℕ} (high : BitVec width) (low : BitVec 8) :
      (high ++ low).toNat = 256 * high.toNat + low.toNat := by
    rw [BitVec.toNat_append, ← Nat.shiftLeft_add_eq_or_of_lt low.isLt, Nat.shiftLeft_eq, Nat.mul_comm]
  change (b₀ ++ b₁ ++ b₂ ++ b₃).toNat = 256 * (256 * (256 * (256 * 0 + b₀.toNat) + b₁.toNat) + b₂.toNat) + b₃.toNat
  rw [beside, beside, beside, Nat.mul_zero, Nat.zero_add]

/-- The number of a string, by its words. -/
theorem number_hostWords (count : ℕ) {string : List (BitVec 8)} (whole : string.length = 4 * count) :
    Der.number string = ∑ i : Fin count, (hostWord string i).toNat * 2 ^ (32 * (count - 1 - i)) := by
  induction count generalizing string with
  | zero => rw [List.eq_nil_of_length_eq_zero whole]; rfl
  | succ count ih =>
    obtain ⟨b₀, b₁, b₂, b₃, rest, rfl, shorter⟩ := exists_word whole
    have split : b₀ :: b₁ :: b₂ :: b₃ :: rest = [b₀, b₁, b₂, b₃] ++ rest := rfl
    have base : 256 ^ (4 * count) = 2 ^ (32 * (count + 1 - 1 - (0 : Fin (count + 1)))) := by
      rw [pow_mul, pow_mul]
      rfl
    rw [split, number_append, Fin.sum_univ_succ, ih shorter, shorter, ← toNat_hostWord b₀ b₁ b₂ b₃ rest, base]
    refine congrArg _ (Finset.sum_congr rfl fun i _ => ?_)
    rw [Fin.val_succ, Nat.add_sub_cancel, Nat.sub_sub, Nat.add_comm]
    rfl

/-- The limbs stand for the number of the bytes. -/
theorem valueOf_get224Bits {string : List (BitVec 8)} (whole : string.length = 28) :
    valueOf (get224Bits (hostWord string)) = Der.number string := by
  obtain ⟨l0, l1, l2, l3, l4, l5, l6, l7⟩ := toNat_get224Bits (hostWord string)
  have value : Der.number string = (hostWord string 0).toNat * 2 ^ 192 + (hostWord string 1).toNat * 2 ^ 160 +
      (hostWord string 2).toNat * 2 ^ 128 + (hostWord string 3).toNat * 2 ^ 96 + (hostWord string 4).toNat * 2 ^ 64 +
      (hostWord string 5).toNat * 2 ^ 32 + (hostWord string 6).toNat * 2 ^ 0 :=
    (number_hostWords 7 whole).trans (Fin.sum_univ_seven _)
  rw [valueOf_eq, l0, l1, l2, l3, l4, l5, l6, l7, value]
  push_cast
  omega

/-- Bytes and limbs are restored from each other, and the limbs denote the big-endian integer of the bytes. -/
theorem put224Bits_get224Bits :
    (∀ string : List (BitVec 8), string.length = 28 →
      put224Bits (get224Bits (hostWord string)) = string ∧
        valueOf (get224Bits (hostWord string)) = Der.number string) ∧
    ∀ a : FieldElement, Below a (2 ^ 28) →
      get224Bits (hostWord (put224Bits a)) = a ∧ (put224Bits a).length = 28 ∧
        Der.number (put224Bits a) = valueOf a := by
  have back (a : FieldElement) (below : Below a (2 ^ 28)) : get224Bits (hostWord (put224Bits a)) = a :=
    get224Bits_putWords below (hostWord_flatten (putWords a))
  have length (a : FieldElement) : (put224Bits a).length = 28 := rfl
  refine ⟨fun string whole => ⟨?_, valueOf_get224Bits whole⟩, fun a below => ⟨back a below, length a, ?_⟩⟩
  · calc put224Bits (get224Bits (hostWord string))
      _ = (List.ofFn fun i : Fin 7 => netBytes (hostWord string i)).flatten :=
        congrArg List.flatten (congrArg List.ofFn (funext fun i => congrArg netBytes (putWords_get224Bits _ i)))
      _ = string := flatten_hostWords 7 whole
  · rw [← valueOf_get224Bits (length a), back a below]

theorem put224Bits_get224Bits_ones :
    put224Bits (get224Bits (hostWord (List.replicate 28 1))) = List.replicate 28 1 ∧
      get224Bits (hostWord (put224Bits fun _ => 1)) = fun _ => 1 :=
  ⟨(put224Bits_get224Bits.1 (List.replicate 28 1) rfl).1,
    (put224Bits_get224Bits.2 (fun _ => 1) (fun _ => show 1 < 2 ^ 28 by decide)).1⟩

end Libchrome.Crypto.P224
