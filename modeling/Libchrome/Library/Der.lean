import Libchrome.Library.Bytes

/-! Elements of a tagged encoding: a tag, the length of the content, the content. -/

namespace Libchrome.Library.Der
open Library.Bytes

/-- The digits of a number to the base 256, the highest first and none too many. -/
def octets (number : Nat) : List Byte :=
  if number = 0 then [] else octets (number / 256) ++ [BitVec.ofNat 8 number]

def number (octets : List Byte) : Nat := octets.foldl (fun total byte => 256 * total + byte.toNat) 0

theorem octets_zero : octets 0 = [] := by rw [octets, if_pos rfl]

theorem octets_pos {number : Nat} (positive : number ≠ 0) :
    octets number = octets (number / 256) ++ [BitVec.ofNat 8 number] := by
  rw [octets, if_neg positive]

theorem number_octets (value : Nat) : number (octets value) = value := by
  induction value using octets.induct with
  | case1 => rw [octets_zero, number, List.foldl_nil]
  | case2 value positive ih =>
    unfold number at ih
    rw [octets_pos positive, number, List.foldl_append, ih, List.foldl_cons, List.foldl_nil, BitVec.toNat_ofNat]
    omega

theorem length_octets_le (count : Nat) {value : Nat} (bounded : value < 256 ^ count) :
    (octets value).length ≤ count := by
  induction count generalizing value with
  | zero =>
    have nothing : value = 0 := by omega
    rw [nothing, octets_zero, List.length_nil]
  | succ count ih =>
    by_cases nothing : value = 0
    · rw [nothing, octets_zero]
      exact Nat.zero_le _
    · have smaller := ih (Nat.div_lt_of_lt_mul (Nat.pow_succ' ▸ bounded))
      rw [octets_pos nothing, List.length_append, List.length_singleton]
      exact Nat.succ_le_succ smaller

/-! ### Numbers as contents -/

theorem number_cons_zero (rest : List Byte) : number (0 :: rest) = number rest := rfl

theorem number_concat (front : List Byte) (last : Byte) :
    number (front ++ [last]) = 256 * number front + last.toNat := by
  rw [number, List.foldl_append]
  rfl

theorem number_ne_zero {first : Byte} (rest : List Byte) (some_ : first ≠ 0) : number (first :: rest) ≠ 0 := by
  induction rest using List.reverseRecOn with
  | nil =>
    have positive : first.toNat ≠ 0 := fun zero => some_ (BitVec.eq_of_toNat_eq zero)
    change 256 * 0 + first.toNat ≠ 0
    omega
  | append_singleton rest last ih =>
    rw [← List.cons_append, number_concat]
    omega

theorem octets_number {first : Byte} (rest : List Byte) (some_ : first ≠ 0) :
    octets (number (first :: rest)) = first :: rest := by
  induction rest using List.reverseRecOn with
  | nil =>
    have same : number [first] = first.toNat := by
      change 256 * 0 + first.toNat = first.toNat
      omega
    have small : first.toNat / 256 = 0 := Nat.div_eq_of_lt first.isLt
    rw [octets_pos (number_ne_zero [] some_), same, small, octets_zero, BitVec.ofNat_toNat, BitVec.setWidth_eq]
    rfl
  | append_singleton rest last ih =>
    have below := last.isLt
    have high : (256 * number (first :: rest) + last.toNat) / 256 = number (first :: rest) := by omega
    have low : BitVec.ofNat 8 (256 * number (first :: rest) + last.toNat) = last := by
      apply BitVec.eq_of_toNat_eq
      rw [BitVec.toNat_ofNat]
      omega
    have positive := number_ne_zero rest some_
    rw [← List.cons_append, number_concat, octets_pos (by omega), high, low, ih]

/-- The content of an integer that is not negative: no octet is too many. -/
structure IsInteger (value : Nat) (content : List Byte) : Prop where
  some_ : content ≠ []
  positive : (content.headD 0).toNat < 0x80
  value : number content = value
  minimal : ∀ rest, content = 0 :: rest → rest = [] ∨ 0x80 ≤ (rest.headD 0).toNat

/-- The content of the integer. -/
def integer (value : Nat) : List Byte :=
  if value = 0 then [0] else if 0x80 ≤ ((octets value).headD 0).toNat then 0 :: octets value else octets value

theorem octets_eq_cons {value : Nat} (positive : value ≠ 0) :
    ∃ first rest, octets value = first :: rest ∧ first ≠ 0 := by
  induction value using octets.induct with
  | case1 => exact absurd rfl positive
  | case2 value _ ih =>
    rw [octets_pos positive]
    by_cases high : value / 256 = 0
    · refine ⟨BitVec.ofNat 8 value, [], by rw [high, octets_zero]; rfl, fun zero => ?_⟩
      have number := congrArg BitVec.toNat zero
      rw [BitVec.toNat_ofNat] at number
      change value % 256 = 0 at number
      omega
    · obtain ⟨first, rest, digits, some_⟩ := ih high
      exact ⟨first, rest ++ [BitVec.ofNat 8 value], by rw [digits, List.cons_append], some_⟩

theorem isInteger_integer (value : Nat) : IsInteger value (integer value) := by
  have low : (0 : Byte).toNat < 0x80 := by decide
  rw [integer]
  split
  next zero =>
    subst zero
    exact ⟨List.cons_ne_nil _ _, low, rfl, fun rest same => .inl (List.cons.inj same).2.symm⟩
  next positive =>
    obtain ⟨first, rest, digits, some_⟩ := octets_eq_cons positive
    have number := number_octets value
    split
    next high =>
      refine ⟨List.cons_ne_nil _ _, low, (number_cons_zero _).trans number, fun rest same => .inr ?_⟩
      rwa [← (List.cons.inj same).2]
    next small =>
      refine ⟨digits ▸ List.cons_ne_nil _ _, Nat.lt_of_not_le small, number, fun rest same => ?_⟩
      rw [digits] at same
      exact absurd (List.cons.inj same).1 some_

/-- There is one such content for each number. -/
theorem IsInteger.eq_integer {value : Nat} {content : List Byte} (isInteger : IsInteger value content) :
    content = integer value := by
  obtain ⟨first, rest, rfl⟩ := List.exists_cons_of_ne_nil isInteger.some_
  have same := isInteger.value
  by_cases zero : first = 0
  · subst zero
    rw [number_cons_zero] at same
    rcases isInteger.minimal rest rfl with rfl | high
    · rw [integer, if_pos (show value = 0 from same.symm)]
    · obtain ⟨second, rest, rfl⟩ : ∃ second others, rest = second :: others := by
        cases rest with
        | nil => exact absurd high (by decide)
        | cons second others => exact ⟨second, others, rfl⟩
      have second_ne : second ≠ 0 := by
        rintro rfl
        exact Nat.not_le.mpr (show (0 : Byte).toNat < 0x80 by decide) high
      have digits := octets_number rest second_ne
      rw [same] at digits
      rw [integer, if_neg (same ▸ number_ne_zero rest second_ne), digits, if_pos high]
  · have digits := octets_number rest zero
    rw [same] at digits
    rw [integer, if_neg (same ▸ number_ne_zero rest zero), digits, if_neg (Nat.not_le.mpr isInteger.positive)]

/-- The length of a content: one octet, or the count of its octets and these. -/
def lengthField (length : Nat) : List Byte :=
  if length < 0x80 then [BitVec.ofNat 8 length]
  else BitVec.ofNat 8 (0x80 + (octets length).length) :: octets length

def header (tag : Byte) (length : Nat) : List Byte := tag :: lengthField length

def element (tag : Byte) (content : List Byte) : List Byte := header tag content.length ++ content

theorem length_header_le (tag : Byte) {length : Nat} (bounded : length < 256 ^ 4) :
    (header tag length).length ≤ 6 := by
  have few := length_octets_le 4 bounded
  unfold header lengthField
  split
  next => exact Nat.le_of_ble_eq_true rfl
  next =>
    rw [List.length_cons, List.length_cons]
    omega

/-- The octets of a length tell where it ends. -/
theorem lengthField_append_inj {length other : Nat} {content rest : List Byte} (bounded : length < 256 ^ 8)
    (bounded' : other < 256 ^ 8) (same : lengthField length ++ content = lengthField other ++ rest) :
    length = other ∧ content = rest := by
  have few := length_octets_le 8 bounded
  have few' := length_octets_le 8 bounded'
  unfold lengthField at same
  split at same
  next short =>
    split at same
    next short' =>
      obtain ⟨first, rest⟩ := List.cons.inj same
      have numbers := congrArg BitVec.toNat first
      rw [BitVec.toNat_ofNat, BitVec.toNat_ofNat] at numbers
      exact ⟨by omega, rest⟩
    next =>
      have numbers := congrArg BitVec.toNat (List.cons.inj same).1
      rw [BitVec.toNat_ofNat, BitVec.toNat_ofNat] at numbers
      omega
  next =>
    split at same
    next =>
      have numbers := congrArg BitVec.toNat (List.cons.inj same).1
      rw [BitVec.toNat_ofNat, BitVec.toNat_ofNat] at numbers
      omega
    next =>
      obtain ⟨first, rest⟩ := List.cons.inj same
      have numbers := congrArg BitVec.toNat first
      rw [BitVec.toNat_ofNat, BitVec.toNat_ofNat] at numbers
      obtain ⟨digits, rest⟩ := List.append_inj rest (by omega)
      exact ⟨by rw [← number_octets length, digits, number_octets], rest⟩

theorem element_append_inj {tag : Byte} {content other rest back : List Byte} (bounded : content.length < 256 ^ 8)
    (bounded' : other.length < 256 ^ 8) (same : element tag content ++ rest = element tag other ++ back) :
    content = other ∧ rest = back := by
  rw [element, element, header, header, List.cons_append, List.cons_append, List.cons_append, List.cons_append,
    List.append_assoc, List.append_assoc] at same
  obtain ⟨lengths, same⟩ := lengthField_append_inj bounded bounded' (List.cons.inj same).2
  exact List.append_inj same lengths

theorem length_le_element (tag : Byte) (content : List Byte) : content.length ≤ (element tag content).length := by
  rw [element, List.length_append]
  exact Nat.le_add_left _ _

theorem length_element_le (tag : Byte) {content : List Byte} {bound : Nat} (short : content.length ≤ bound)
    (small : bound < 256 ^ 8) : (element tag content).length ≤ bound + 10 := by
  have few := length_octets_le 8 (Nat.lt_of_le_of_lt short small)
  unfold element header lengthField
  split
  next =>
    rw [List.length_append, List.length_cons, List.length_singleton]
    omega
  next =>
    rw [List.length_append, List.length_cons, List.length_cons]
    omega

theorem number_lt (octets : List Byte) : number octets < 256 ^ octets.length := by
  induction octets using List.reverseRecOn with
  | nil => exact Nat.one_pos
  | append_singleton front last ih =>
    have below := last.isLt
    rw [number_concat, List.length_append, List.length_singleton, Nat.pow_succ]
    omega

theorem length_integer_number_le (octets : List Byte) : (integer (number octets)).length ≤ octets.length + 1 := by
  have few := length_octets_le octets.length (number_lt octets)
  unfold integer
  split
  next => exact Nat.succ_le_succ (Nat.zero_le _)
  next =>
    split
    next => exact Nat.succ_le_succ few
    next => exact Nat.le_succ_of_le few

end Libchrome.Library.Der
