import Libchrome.Library.Bytes

/-! The UTF-8 macros of `icu_utf.h` and what `base` builds on them; the bits that shifts and masks join are disjoint,
so they are written as sums. -/

namespace Libchrome.Base.Utf8
open Library.Bytes

/-- `CBU_SENTINEL`. -/
abbrev sentinel : Int := -1

def isSurrogate (c : Nat) : Bool := c / 0x800 = 0x1b

/-- `CBU8_IS_LEAD`. -/
def isLead (c : Nat) : Bool := 0xc0 ≤ c && c < 0xfe

/-- `CBU8_IS_TRAIL`. -/
def isTrail (byte : Byte) : Bool := byte.toNat / 0x40 = 2

/-- `utf8_countTrailBytes`. -/
def countTrailBytes (c : Nat) : Nat :=
  if c < 0xc0 then 0 else if c < 0xe0 then 1 else if c < 0xf0 then 2 else if c < 0xf8 then 3
  else if c < 0xfc then 4 else if c < 0xfe then 5 else 0

/-- `utf8_minLegal`. -/
def minLegal (count : Nat) : Nat :=
  if count = 0 then 0 else if count = 1 then 0x80 else if count = 2 then 0x800 else 0x10000

/-- The cases of the switch from `count` down to 1: the code point, the index behind it, and `illegal`. -/
def trailBytes (s : Nat → Byte) : Nat → Nat → Nat → Bool → Nat × Nat × Bool
  | 0, c, i, illegal => (c, i, illegal)
  | count + 1, c, i, illegal =>
    let trail := s i
    let c := c * 0x40 + trail.toNat % 0x40
    -- A fourth byte is not read for a code point outside Unicode.
    if count = 2 ∧ 0x110 ≤ c then (c, i + 1, true) else trailBytes s count c (i + 1) (illegal || !isTrail trail)

/-- The index behind at most `count` trail bytes. -/
def skipTrails (s : Nat → Byte) : Nat → Nat → Nat
  | 0, i => i
  | count + 1, i => if isTrail (s i) then skipTrails s count (i + 1) else i

/-- `utf8_nextCharSafeBody` with `strict` -1. -/
def nextCharSafeBody (s : Nat → Byte) (i length c : Nat) : Int × Nat :=
  let count := countTrailBytes c
  if i + count ≤ length then
    if 4 ≤ count then (sentinel, skipTrails s count i)
    else
      let (c, next, illegal) := trailBytes s count (c % 2 ^ (6 - count)) i false
      if illegal || c < minLegal count || isSurrogate c then (sentinel, skipTrails s count i) else (c, next)
  else (sentinel, skipTrails s (length - i) i)

/-- `CBU8_NEXT`: the code point at `i`, or a negative value, and the index behind it. -/
def cbu8Next (s : Nat → Byte) (i length : Nat) : Int × Nat :=
  let c := (s i).toNat
  if 0x80 ≤ c then if isLead c then nextCharSafeBody s (i + 1) length c else (sentinel, i + 1)
  else (c, i + 1)

/-- `CBU8_APPEND_UNSAFE`. -/
def cbu8Append (c : Nat) : List Byte :=
  if c ≤ 0x7f then [BitVec.ofNat 8 c]
  else if c ≤ 0x7ff then [BitVec.ofNat 8 (c / 0x40 + 0xc0), BitVec.ofNat 8 (c % 0x40 + 0x80)]
  else if c ≤ 0xffff then
    [BitVec.ofNat 8 (c / 0x1000 + 0xe0), BitVec.ofNat 8 (c / 0x40 % 0x40 + 0x80), BitVec.ofNat 8 (c % 0x40 + 0x80)]
  else [BitVec.ofNat 8 (c / 0x40000 + 0xf0), BitVec.ofNat 8 (c / 0x1000 % 0x40 + 0x80),
    BitVec.ofNat 8 (c / 0x40 % 0x40 + 0x80), BitVec.ofNat 8 (c % 0x40 + 0x80)]

def isValidCodepoint (codePoint : Nat) : Bool :=
  codePoint < 0xd800 || (0xe000 ≤ codePoint && codePoint ≤ 0x10ffff)

/-- A negative code point is a huge one to this function. -/
def isValidCharacter (codePoint : Int) : Bool :=
  0 ≤ codePoint && (codePoint < 0xd800 || (0xe000 ≤ codePoint && codePoint < 0xfdd0) ||
    (0xfdef < codePoint && codePoint ≤ 0x10ffff && codePoint % 0x10000 / 2 ≠ 0x7fff))

/-- What a function reads that takes these bytes and their number; the rest of memory is zero. -/
def reader (bytes : List Byte) (i : Nat) : Byte := bytes.getD i 0

/-- The loop of `IsStringUTF8`; a character takes a byte at least, so `fuel` bytes are enough. -/
def isStringUTF8From (bytes : List Byte) : Nat → Nat → Bool
  | 0, _ => true
  | fuel + 1, charIndex =>
    if charIndex < bytes.length then
      let (codePoint, next) := cbu8Next (reader bytes) charIndex bytes.length
      isValidCharacter codePoint && isStringUTF8From bytes fuel next
    else true

def isStringUTF8 (bytes : List Byte) : Bool := isStringUTF8From bytes bytes.length 0

/-! ### Decoding and encoding -/

theorem isLead_iff (c : Nat) : isLead c = true ↔ 0xc0 ≤ c ∧ c < 0xfe := by
  simp only [isLead, Bool.and_eq_true, decide_eq_true_eq]

theorem isTrail_iff (byte : Byte) : isTrail byte = true ↔ 0x80 ≤ byte.toNat ∧ byte.toNat < 0xc0 := by
  simp only [isTrail, decide_eq_true_eq]
  omega

theorem isSurrogate_iff (c : Nat) : isSurrogate c = true ↔ 0xd800 ≤ c ∧ c < 0xe000 := by
  simp only [isSurrogate, decide_eq_true_eq]
  omega

theorem isValidCodepoint_iff (c : Nat) : isValidCodepoint c = true ↔ c < 0xd800 ∨ (0xe000 ≤ c ∧ c ≤ 0x10ffff) := by
  simp only [isValidCodepoint, Bool.or_eq_true, Bool.and_eq_true, decide_eq_true_eq]

theorem le_of_isValidCodepoint {c : Nat} (valid : isValidCodepoint c = true) : c ≤ 0x10ffff := by
  rw [isValidCodepoint_iff] at valid
  omega

theorem isValidCodepoint_of_isValidCharacter {c : Nat} (valid : isValidCharacter c = true) :
    isValidCodepoint c = true := by
  rw [isValidCodepoint_iff]
  simp only [isValidCharacter, Bool.or_eq_true, Bool.and_eq_true, decide_eq_true_eq] at valid
  omega

theorem nonneg_of_isValidCharacter {c : Int} (valid : isValidCharacter c = true) : 0 ≤ c := by
  simp only [isValidCharacter, Bool.and_eq_true, decide_eq_true_eq] at valid
  exact valid.1

/-- The `count` bytes from `i` on. -/
def slice (s : Nat → Byte) : Nat → Nat → List Byte
  | _, 0 => []
  | i, count + 1 => s i :: slice s (i + 1) count

theorem byte_eq {byte : Byte} {value : Nat} (small : value < 256) : byte = BitVec.ofNat 8 value ↔ byte.toNat = value := by
  rw [← BitVec.toNat_inj, BitVec.toNat_ofNat, Nat.mod_eq_of_lt small]

/-- The bytes at `i` are the encoding of `c`, as equations on their values. -/
def Encoded (s : Nat → Byte) (i c : Nat) : Prop :=
  if c ≤ 0x7f then (s i).toNat = c
  else if c ≤ 0x7ff then (s i).toNat = c / 0x40 + 0xc0 ∧ (s (i + 1)).toNat = c % 0x40 + 0x80
  else if c ≤ 0xffff then
    (s i).toNat = c / 0x1000 + 0xe0 ∧ (s (i + 1)).toNat = c / 0x40 % 0x40 + 0x80 ∧ (s (i + 2)).toNat = c % 0x40 + 0x80
  else (s i).toNat = c / 0x40000 + 0xf0 ∧ (s (i + 1)).toNat = c / 0x1000 % 0x40 + 0x80 ∧
    (s (i + 2)).toNat = c / 0x40 % 0x40 + 0x80 ∧ (s (i + 3)).toNat = c % 0x40 + 0x80

variable {s : Nat → Byte} {i : Nat}

theorem encoded_iff {c : Nat} (small : c ≤ 0x10ffff) :
    Encoded s i c ↔ slice s i (cbu8Append c).length = cbu8Append c := by
  unfold Encoded cbu8Append
  split
  next one => simp only [List.length_cons, List.length_nil, slice, List.cons.injEq, and_true, byte_eq (show c < 256 by omega)]
  next =>
    split
    next two =>
      simp only [List.length_cons, List.length_nil, slice, List.cons.injEq, and_true,
        byte_eq (show c / 0x40 + 0xc0 < 256 by omega), byte_eq (show c % 0x40 + 0x80 < 256 by omega)]
    next =>
      split
      next three =>
        simp only [List.length_cons, List.length_nil, slice, List.cons.injEq, and_true,
          byte_eq (show c / 0x1000 + 0xe0 < 256 by omega), byte_eq (show c / 0x40 % 0x40 + 0x80 < 256 by omega),
          byte_eq (show c % 0x40 + 0x80 < 256 by omega)]
      next four =>
        simp only [List.length_cons, List.length_nil, slice, List.cons.injEq, and_true,
          byte_eq (show c / 0x40000 + 0xf0 < 256 by omega), byte_eq (show c / 0x1000 % 0x40 + 0x80 < 256 by omega),
          byte_eq (show c / 0x40 % 0x40 + 0x80 < 256 by omega), byte_eq (show c % 0x40 + 0x80 < 256 by omega)]

theorem length_cbu8Append (c : Nat) :
    (cbu8Append c).length = if c ≤ 0x7f then 1 else if c ≤ 0x7ff then 2 else if c ≤ 0xffff then 3 else 4 := by
  unfold cbu8Append
  split
  · rfl
  · split
    · rfl
    · split <;> rfl

variable {length : Nat}

theorem cbu8Next_single (single : (s i).toNat < 0x80) : cbu8Next s i length = (((s i).toNat : Int), i + 1) := by
  unfold cbu8Next
  rw [if_neg (by omega)]

/-- A sequence of one to three trail bytes, all within the length. -/
theorem cbu8Next_multi {count : Nat} (lead : 0xc0 ≤ (s i).toNat) (trails : countTrailBytes (s i).toNat = count)
    (positive : 0 < count) (few : count < 4) (room : i + 1 + count ≤ length) :
    cbu8Next s i length =
      let (c, next, illegal) := trailBytes s count ((s i).toNat % 2 ^ (6 - count)) (i + 1) false
      if illegal || c < minLegal count || isSurrogate c then (sentinel, skipTrails s count (i + 1)) else (c, next) := by
  have small : (s i).toNat < 0xfe := by
    by_contra large
    have bound := (s i).isLt
    unfold countTrailBytes at trails
    split_ifs at trails <;> omega
  unfold cbu8Next nextCharSafeBody
  rw [if_pos (by omega), if_pos ((isLead_iff _).mpr ⟨lead, small⟩)]
  simp only [trails, if_pos room, if_neg (show ¬ 4 ≤ count by omega)]

theorem trailBytes_one (s : Nat → Byte) (c i : Nat) :
    trailBytes s 1 c i false = (c * 0x40 + (s i).toNat % 0x40, i + 1, !isTrail (s i)) := by
  simp only [trailBytes, show ¬ (0 = 2) by decide, false_and, if_false, Bool.false_or]

theorem trailBytes_two (s : Nat → Byte) (c i : Nat) :
    trailBytes s 2 c i false = ((c * 0x40 + (s i).toNat % 0x40) * 0x40 + (s (i + 1)).toNat % 0x40, i + 2,
      !isTrail (s i) || !isTrail (s (i + 1))) := by
  simp only [trailBytes, show ¬ (0 = 2) by decide, show ¬ (1 = 2) by decide, false_and, if_false, Bool.false_or]

theorem trailBytes_three (s : Nat → Byte) (c i : Nat) :
    trailBytes s 3 c i false =
      if 0x110 ≤ c * 0x40 + (s i).toNat % 0x40 then (c * 0x40 + (s i).toNat % 0x40, i + 1, true)
      else (((c * 0x40 + (s i).toNat % 0x40) * 0x40 + (s (i + 1)).toNat % 0x40) * 0x40 + (s (i + 2)).toNat % 0x40, i + 3,
        !isTrail (s i) || !isTrail (s (i + 1)) || !isTrail (s (i + 2))) := by
  simp only [trailBytes, show ¬ (0 = 2) by decide, show ¬ (1 = 2) by decide, true_and, false_and, if_false, Bool.false_or]

theorem cbu8Next_two (lead : 0xc0 ≤ (s i).toNat) (bound : (s i).toNat < 0xe0) (room : i + 2 ≤ length) :
    let c := (s i).toNat % 0x20 * 0x40 + (s (i + 1)).toNat % 0x40
    cbu8Next s i length =
      if isTrail (s (i + 1)) = true ∧ 0x80 ≤ c then ((c : Int), i + 2) else (sentinel, skipTrails s 1 (i + 1)) := by
  have trails : countTrailBytes (s i).toNat = 1 := by
    unfold countTrailBytes
    rw [if_neg (by omega), if_pos bound]
  have notSurrogate : isSurrogate ((s i).toNat % 0x20 * 0x40 + (s (i + 1)).toNat % 0x40) = false := by
    rw [Bool.eq_false_iff, Ne, isSurrogate_iff]
    omega
  rw [cbu8Next_multi lead trails (by decide) (by decide) (by omega)]
  simp only [trailBytes_one, Nat.reduceSub, Nat.reducePow, minLegal, notSurrogate]
  by_cases trail : isTrail (s (i + 1)) = true
  · by_cases legal : (s i).toNat % 0x20 * 0x40 + (s (i + 1)).toNat % 0x40 < 0x80
    · simp [trail, legal]
    · simp [trail, legal]
  · simp [trail]

theorem cbu8Next_three (lead : 0xe0 ≤ (s i).toNat) (bound : (s i).toNat < 0xf0) (room : i + 3 ≤ length) :
    let c := ((s i).toNat % 0x10 * 0x40 + (s (i + 1)).toNat % 0x40) * 0x40 + (s (i + 2)).toNat % 0x40
    cbu8Next s i length =
      if isTrail (s (i + 1)) = true ∧ isTrail (s (i + 2)) = true ∧ 0x800 ≤ c ∧ isSurrogate c = false then ((c : Int), i + 3)
      else (sentinel, skipTrails s 2 (i + 1)) := by
  have trails : countTrailBytes (s i).toNat = 2 := by
    unfold countTrailBytes
    rw [if_neg (by omega), if_neg (by omega), if_pos bound]
  rw [cbu8Next_multi (by omega) trails (by decide) (by decide) (by omega)]
  simp only [trailBytes_two, Nat.reduceSub, Nat.reducePow, minLegal]
  generalize ((s i).toNat % 16 * 0x40 + (s (i + 1)).toNat % 0x40) * 0x40 + (s (i + 2)).toNat % 0x40 = c
  by_cases first : isTrail (s (i + 1)) = true
  · by_cases second : isTrail (s (i + 2)) = true
    · by_cases legal : c < 0x800
      · simp [first, second, legal]
      · cases isSurrogate c <;> simp [first, second, legal]
    · simp [second]
  · simp [first]

theorem cbu8Next_four (lead : 0xf0 ≤ (s i).toNat) (bound : (s i).toNat < 0xf8) (room : i + 4 ≤ length) :
    let c := (((s i).toNat % 8 * 0x40 + (s (i + 1)).toNat % 0x40) * 0x40 + (s (i + 2)).toNat % 0x40) * 0x40 +
      (s (i + 3)).toNat % 0x40
    cbu8Next s i length =
      if isTrail (s (i + 1)) = true ∧ isTrail (s (i + 2)) = true ∧ isTrail (s (i + 3)) = true ∧ 0x10000 ≤ c ∧ c ≤ 0x10ffff
      then ((c : Int), i + 4) else (sentinel, skipTrails s 3 (i + 1)) := by
  have trails : countTrailBytes (s i).toNat = 3 := by
    unfold countTrailBytes
    rw [if_neg (by omega), if_neg (by omega), if_neg (by omega), if_pos bound]
  rw [cbu8Next_multi (by omega) trails (by decide) (by decide) (by omega)]
  simp only [trailBytes_three, Nat.reduceSub, Nat.reducePow, minLegal]
  by_cases outside : 0x110 ≤ (s i).toNat % 8 * 0x40 + (s (i + 1)).toNat % 0x40
  · symm
    rw [if_pos outside, if_neg]
    · rfl
    · intro legal
      omega
  · rw [if_neg outside]
    have within : (((s i).toNat % 8 * 0x40 + (s (i + 1)).toNat % 0x40) * 0x40 + (s (i + 2)).toNat % 0x40) * 0x40 +
        (s (i + 3)).toNat % 0x40 ≤ 0x10ffff := by omega
    generalize (((s i).toNat % 8 * 0x40 + (s (i + 1)).toNat % 0x40) * 0x40 + (s (i + 2)).toNat % 0x40) * 0x40 +
      (s (i + 3)).toNat % 0x40 = c at within ⊢
    by_cases trailing : isTrail (s (i + 1)) = true ∧ isTrail (s (i + 2)) = true ∧ isTrail (s (i + 3)) = true
    · by_cases legal : c < 0x10000
      · simp [trailing, legal]
      · have notSurrogate : isSurrogate c = false := by
          rw [Bool.eq_false_iff, Ne, isSurrogate_iff]
          omega
        simp [trailing, legal, notSurrogate, within]
    · have illegal : (!isTrail (s (i + 1)) || !isTrail (s (i + 2)) || !isTrail (s (i + 3))) = true := by
        simp only [Bool.or_eq_true, Bool.not_eq_true', ← Bool.not_eq_true]
        tauto
      symm
      rw [if_neg (fun legal => trailing ⟨legal.1, legal.2.1, legal.2.2.1⟩)]
      simp [illegal]

theorem cbu8Next_of_encoded {c : Nat} (valid : isValidCodepoint c = true) (encoded : Encoded s i c)
    (room : i + (cbu8Append c).length ≤ length) : cbu8Next s i length = ((c : Int), i + (cbu8Append c).length) := by
  rw [isValidCodepoint_iff] at valid
  rw [length_cbu8Append] at room ⊢
  unfold Encoded at encoded
  split at encoded
  next one =>
    rw [if_pos one, cbu8Next_single (by omega), encoded]
  next notOne =>
    split at encoded
    next two =>
      rw [if_neg notOne, if_pos two] at room ⊢
      rw [cbu8Next_two (by omega) (by omega) room, if_pos ⟨(isTrail_iff _).mpr (by omega), by omega⟩]
      simp only [Prod.mk.injEq, and_true]
      omega
    next notTwo =>
      split at encoded
      next three =>
        rw [if_neg notOne, if_neg notTwo, if_pos three] at room ⊢
        have value : ((s i).toNat % 0x10 * 0x40 + (s (i + 1)).toNat % 0x40) * 0x40 + (s (i + 2)).toNat % 0x40 = c := by omega
        have notSurrogate : isSurrogate c = false := by
          rw [Bool.eq_false_iff, Ne, isSurrogate_iff]
          omega
        rw [cbu8Next_three (by omega) (by omega) room, value,
          if_pos ⟨(isTrail_iff _).mpr (by omega), (isTrail_iff _).mpr (by omega), by omega, notSurrogate⟩]
      next notThree =>
        rw [if_neg notOne, if_neg notTwo, if_neg notThree] at room ⊢
        have value : (((s i).toNat % 8 * 0x40 + (s (i + 1)).toNat % 0x40) * 0x40 + (s (i + 2)).toNat % 0x40) * 0x40 +
            (s (i + 3)).toNat % 0x40 = c := by omega
        rw [cbu8Next_four (by omega) (by omega) room, value,
          if_pos ⟨(isTrail_iff _).mpr (by omega), (isTrail_iff _).mpr (by omega), (isTrail_iff _).mpr (by omega), by omega,
            by omega⟩]

theorem sentinel_neg : ¬ 0 ≤ sentinel := by decide

theorem not_sentinel {c : Int} {next : Nat} (same : (sentinel, i) = (c, next)) (nonneg : 0 ≤ c) : False := by
  rw [Prod.mk.injEq] at same
  exact sentinel_neg (same.1 ▸ nonneg)

/-- A sequence that is decoded begins with a lead byte of at most three trail bytes, all within the length. -/
theorem lead_of_cbu8Next (multi : 0x80 ≤ (s i).toNat) (nonneg : 0 ≤ (cbu8Next s i length).1) :
    0xc0 ≤ (s i).toNat ∧ (s i).toNat < 0xf8 ∧ i + 1 + countTrailBytes (s i).toNat ≤ length := by
  unfold cbu8Next at nonneg
  rw [if_pos multi] at nonneg
  by_cases lead : isLead (s i).toNat = true
  · rw [if_pos lead] at nonneg
    rw [isLead_iff] at lead
    unfold nextCharSafeBody at nonneg
    by_cases room : i + 1 + countTrailBytes (s i).toNat ≤ length
    · by_cases many : 4 ≤ countTrailBytes (s i).toNat
      · simp only [if_pos room, if_pos many] at nonneg
        exact (sentinel_neg nonneg).elim
      · refine ⟨lead.1, ?_, room⟩
        unfold countTrailBytes at many
        by_contra large
        rw [if_neg (by omega), if_neg (by omega), if_neg (by omega), if_neg (by omega)] at many
        split_ifs at many <;> omega
    · simp only [if_neg room] at nonneg
      exact (sentinel_neg nonneg).elim
  · rw [if_neg lead] at nonneg
    exact (sentinel_neg nonneg).elim

theorem encoded_of_cbu8Next {next : Nat} {c : Int} (decoded : cbu8Next s i length = (c, next)) (inside : i < length)
    (nonneg : 0 ≤ c) :
    ∃ n : Nat, c = n ∧ isValidCodepoint n = true ∧ Encoded s i n ∧ next = i + (cbu8Append n).length ∧ next ≤ length := by
  by_cases single : (s i).toNat < 0x80
  · rw [cbu8Next_single single, Prod.mk.injEq] at decoded
    rcases decoded with ⟨rfl, rfl⟩
    refine ⟨(s i).toNat, rfl, (isValidCodepoint_iff _).mpr (by omega), ?_, ?_, by omega⟩
    · rw [Encoded, if_pos (by omega)]
    · rw [length_cbu8Append, if_pos (by omega)]
  · have lead := lead_of_cbu8Next (by omega) (show 0 ≤ (cbu8Next s i length).1 by rw [decoded]; exact nonneg)
    have room := lead.2.2
    unfold countTrailBytes at room
    rw [if_neg (by omega)] at room
    simp only [length_cbu8Append, isValidCodepoint_iff, Encoded]
    by_cases two : (s i).toNat < 0xe0
    · rw [if_pos two] at room
      rw [cbu8Next_two lead.1 two (by omega)] at decoded
      split at decoded
      next legal =>
        rw [isTrail_iff, Prod.mk.injEq] at *
        rcases decoded with ⟨rfl, rfl⟩
        refine ⟨_, rfl, by omega, ?_, ?_, by omega⟩
        · rw [if_neg (by omega), if_pos (by omega)]
          omega
        · rw [if_neg (by omega), if_pos (by omega)]
      next => exact (not_sentinel decoded nonneg).elim
    · rw [if_neg two] at room
      by_cases three : (s i).toNat < 0xf0
      · rw [if_pos three] at room
        rw [cbu8Next_three (by omega) three (by omega)] at decoded
        split at decoded
        next legal =>
          rw [isTrail_iff, isTrail_iff, Bool.eq_false_iff, Ne, isSurrogate_iff] at legal
          rw [Prod.mk.injEq] at decoded
          rcases decoded with ⟨rfl, rfl⟩
          refine ⟨_, rfl, by omega, ?_, ?_, by omega⟩
          · rw [if_neg (by omega), if_neg (by omega), if_pos (by omega)]
            omega
          · rw [if_neg (by omega), if_neg (by omega), if_pos (by omega)]
        next => exact (not_sentinel decoded nonneg).elim
      · rw [if_neg three, if_pos lead.2.1] at room
        rw [cbu8Next_four (by omega) lead.2.1 (by omega)] at decoded
        split at decoded
        next legal =>
          rw [isTrail_iff, isTrail_iff, isTrail_iff] at legal
          rw [Prod.mk.injEq] at decoded
          rcases decoded with ⟨rfl, rfl⟩
          refine ⟨_, rfl, by omega, ?_, ?_, by omega⟩
          · rw [if_neg (by omega), if_neg (by omega), if_neg (by omega)]
            omega
          · rw [if_neg (by omega), if_neg (by omega), if_neg (by omega)]
        next => exact (not_sentinel decoded nonneg).elim

theorem exists_of_cbu8Next (inside : i < length) (nonneg : 0 ≤ (cbu8Next s i length).1) :
    ∃ n : Nat, cbu8Next s i length = ((n : Int), i + (cbu8Append n).length) ∧ isValidCodepoint n = true ∧
      Encoded s i n ∧ i + (cbu8Append n).length ≤ length := by
  rcases decoded : cbu8Next s i length with ⟨c, next⟩
  rw [decoded] at nonneg
  rcases encoded_of_cbu8Next decoded inside nonneg with ⟨n, rfl, codepoint, encoded, rfl, room⟩
  exact ⟨n, rfl, codepoint, encoded, room⟩

theorem cbu8Next_neg {s : Nat → Byte} {i length : Nat} : 0 ≤ (cbu8Next s i length).1 ∨ (cbu8Next s i length).1 = sentinel := by
  unfold cbu8Next nextCharSafeBody
  simp only
  split_ifs <;> first | (right; rfl) | (left; exact Int.natCast_nonneg _)

theorem le_skipTrails (s : Nat → Byte) (count i : Nat) : i ≤ skipTrails s count i := by
  induction count generalizing i with
  | zero => exact Nat.le_refl i
  | succ count ih =>
    rw [skipTrails]
    split
    next => exact (Nat.le_succ i).trans (ih (i + 1))
    next => exact Nat.le_refl i

theorem le_trailBytes (s : Nat → Byte) (count c i : Nat) (illegal : Bool) : i ≤ (trailBytes s count c i illegal).2.1 := by
  induction count generalizing c i illegal with
  | zero => exact Nat.le_refl i
  | succ count ih =>
    rw [trailBytes]
    split
    next => exact Nat.le_succ i
    next => exact (Nat.le_succ i).trans (ih _ _ _)

/-- `CBU8_NEXT` moves forward, whatever it reads. -/
theorem lt_cbu8Next (s : Nat → Byte) (i length : Nat) : i < (cbu8Next s i length).2 := by
  simp only [cbu8Next, nextCharSafeBody]
  split_ifs
  all_goals
    first
    | exact Nat.lt_succ_self i
    | exact le_skipTrails s _ (i + 1)
    | exact le_trailBytes s _ _ (i + 1) _

/-! ### Decoding a list of bytes -/

/-- The first character of some bytes and the bytes behind it. -/
def decodeFirst (bytes : List Byte) : Option (Nat × List Byte) :=
  let (c, next) := cbu8Next (reader bytes) 0 bytes.length
  if isValidCharacter c then some (c.toNat, bytes.drop next) else none

/-- From index `i` on, `s` holds these bytes. -/
def Holds (s : Nat → Byte) (i : Nat) (bytes : List Byte) : Prop :=
  ∀ k, (inside : k < bytes.length) → s (i + k) = bytes[k]

theorem holds_reader (bytes : List Byte) : Holds (reader bytes) 0 bytes := by
  intro k inside
  rw [reader, Nat.zero_add, List.getD_eq_getElem?_getD, List.getElem?_eq_getElem inside]
  rfl

theorem Holds.tail {byte : Byte} {rest : List Byte} (holds : Holds s i (byte :: rest)) : Holds s (i + 1) rest := by
  intro k inside
  have next := holds (k + 1) (Nat.succ_lt_succ inside)
  rw [List.getElem_cons_succ] at next
  rw [← next]
  congr 1
  omega

variable {bytes : List Byte}

theorem slice_eq_take (holds : Holds s i bytes) {count : Nat} (room : count ≤ bytes.length) :
    slice s i count = bytes.take count := by
  induction count generalizing i bytes with
  | zero => rfl
  | succ count inductive_hypothesis =>
    cases bytes with
    | nil => exact absurd room (Nat.not_succ_le_zero count)
    | cons byte rest =>
      rw [slice, List.take_succ_cons, inductive_hypothesis holds.tail (Nat.le_of_succ_le_succ room)]
      congr 1
      exact holds 0 (Nat.succ_pos _)

theorem cbu8Next_congr {s' : Nat → Byte} {i' length' : Nat} (holds : Holds s i bytes) (holds' : Holds s' i' bytes)
    (fits : i + bytes.length = length) (fits' : i' + bytes.length = length') (inside : i < length)
    (nonneg : 0 ≤ (cbu8Next s i length).1) :
    (cbu8Next s' i' length').1 = (cbu8Next s i length).1 ∧
    (cbu8Next s' i' length').2 + i = (cbu8Next s i length).2 + i' := by
  rcases exists_of_cbu8Next inside nonneg with ⟨n, next, codepoint, encoded, room⟩
  have small := le_of_isValidCodepoint codepoint
  have held := (encoded_iff small).mp encoded
  rw [slice_eq_take holds (by omega)] at held
  have encoded' : Encoded s' i' n := by
    rw [encoded_iff small, slice_eq_take holds' (by omega), held]
  rw [next, cbu8Next_of_encoded codepoint encoded' (by omega)]
  refine ⟨rfl, ?_⟩
  simp only
  omega

/-- Decoding in memory is decoding the bytes that are held there. -/
theorem decodeFirst_of_holds (holds : Holds s i bytes) (fits : i + bytes.length = length) (inside : i < length) :
    decodeFirst bytes =
      if isValidCharacter (cbu8Next s i length).1 then
        some ((cbu8Next s i length).1.toNat, bytes.drop ((cbu8Next s i length).2 - i))
      else none := by
  have fits' : 0 + bytes.length = bytes.length := Nat.zero_add _
  unfold decodeFirst
  rcases @cbu8Next_neg s i length with nonneg | negative
  · have same := cbu8Next_congr holds (holds_reader bytes) fits fits' inside nonneg
    simp only [same.1]
    have behind : (cbu8Next (reader bytes) 0 bytes.length).2 = (cbu8Next s i length).2 - i := by omega
    rw [behind]
  · rcases @cbu8Next_neg (reader bytes) 0 bytes.length with nonneg' | negative'
    · have same := cbu8Next_congr (holds_reader bytes) holds fits' fits (by omega) nonneg'
      rw [same.1] at negative
      exact (sentinel_neg (negative ▸ nonneg')).elim
    · simp only [negative, negative']
      rfl

theorem decodeFirst_append {c : Nat} (valid : isValidCharacter c = true) (rest : List Byte) :
    decodeFirst (cbu8Append c ++ rest) = some (c, rest) := by
  have codepoint := isValidCodepoint_of_isValidCharacter valid
  have held := slice_eq_take (holds_reader (cbu8Append c ++ rest))
    (show (cbu8Append c).length ≤ (cbu8Append c ++ rest).length by rw [List.length_append]; exact Nat.le_add_right _ _)
  rw [List.take_left] at held
  have decoded := cbu8Next_of_encoded codepoint ((encoded_iff (le_of_isValidCodepoint codepoint)).mpr held)
    (show 0 + (cbu8Append c).length ≤ (cbu8Append c ++ rest).length by rw [List.length_append]; omega)
  rw [decodeFirst, decoded]
  simp only [valid, if_true, Int.toNat_natCast, Nat.zero_add, List.drop_left]

/-- What is decoded is a valid character, in its only encoding. -/
theorem eq_append_of_decodeFirst {rest : List Byte} {c : Nat} (decoded : decodeFirst bytes = some (c, rest))
    (some_ : bytes ≠ []) : isValidCharacter c = true ∧ bytes = cbu8Append c ++ rest := by
  unfold decodeFirst at decoded
  by_cases valid : isValidCharacter (cbu8Next (reader bytes) 0 bytes.length).1 = true
  · rcases exists_of_cbu8Next (List.length_pos_iff.mpr some_) (nonneg_of_isValidCharacter valid) with
      ⟨n, next, codepoint, encoded, room⟩
    rw [next] at decoded valid
    simp only [valid, if_true, Option.some.injEq, Prod.mk.injEq, Int.toNat_natCast, Nat.zero_add] at decoded room
    rcases decoded with ⟨rfl, rest_eq⟩
    have held := slice_eq_take (holds_reader bytes) room
    rw [(encoded_iff (le_of_isValidCodepoint codepoint)).mp encoded] at held
    refine ⟨valid, ?_⟩
    calc bytes
      _ = bytes.take (cbu8Append n).length ++ bytes.drop (cbu8Append n).length := (List.take_append_drop _ _).symm
      _ = cbu8Append n ++ rest := by rw [← held, rest_eq]
  · simp only [valid] at decoded
    cases decoded

end Libchrome.Base.Utf8
