import Libchrome.Base.Json.Writer
import Libchrome.Library.TextEncoding

/-! `ReadUnicodeCharacter` and `WriteUnicodeCharacter` (`utf_string_conversion_utils.cc`) of 8-bit and 16-bit text. -/

namespace Libchrome.Base.Strings
open Library.Bytes Library.TextEncoding Utf8 Json

/-- `char16`. -/
abbrev Unit16 := BitVec 16

/-! ### The macros of `icu_utf.h` for UTF-16 -/

/-- `CBU16_IS_SURROGATE_LEAD`, of a surrogate. -/
def isSurrogateLead (c : Nat) : Bool := c / 0x400 % 2 = 0

/-- `CBU16_IS_TRAIL`. -/
def isTrail16 (c : Nat) : Bool := c / 0x400 = 0x37

/-- `CBU16_SURROGATE_OFFSET`. -/
def surrogateOffset : Nat := 0xd800 * 0x400 + 0xdc00 - 0x10000

/-- `CBU16_GET_SUPPLEMENTARY`. -/
def getSupplementary (lead trail : Nat) : Nat := lead * 0x400 + trail - surrogateOffset

/-- `CBU16_APPEND_UNSAFE`. -/
def cbu16Append (c : Nat) : List Unit16 :=
  if c ≤ 0xffff then [BitVec.ofNat 16 c] else [BitVec.ofNat 16 (c / 0x400 + 0xd7c0), BitVec.ofNat 16 (c % 0x400 + 0xdc00)]

/-! ### Reading and writing 16-bit text -/

/-- `ReadUnicodeCharacter` of `char16`, with the index behind what it has read. -/
def readUnicodeCharacter16 (src : Nat → Unit16) (srcLen charIndex : Nat) : Option Nat × Nat :=
  let unit := (src charIndex).toNat
  if isSurrogate unit then
    if !isSurrogateLead unit || srcLen ≤ charIndex + 1 || !isTrail16 (src (charIndex + 1)).toNat then (none, charIndex + 1)
    else
      let codePoint := getSupplementary unit (src (charIndex + 1)).toNat
      (if isValidCodepoint codePoint then some codePoint else none, charIndex + 2)
  else (if isValidCodepoint unit then some unit else none, charIndex + 1)

/-- `WriteUnicodeCharacter` to a `string16`. -/
def writeUnicodeCharacter16 (codePoint : Nat) : List Unit16 :=
  if codePoint ≤ 0xffff then [BitVec.ofNat 16 codePoint] else cbu16Append codePoint

/-- What a function reads that takes these units and their number; the rest of memory is zero. -/
def reader16 (units : List Unit16) (i : Nat) : Unit16 := units.getD i 0

/-! ### 8-bit text is UTF-8 -/

theorem isValidCodepoint_iff_isValidChar (c : Nat) : isValidCodepoint c = true ↔ c.isValidChar := by
  rw [isValidCodepoint_iff, Nat.isValidChar]
  omega

theorem utf8_encode_eq {c : Nat} (valid : c.isValidChar) : utf8.encode c = cbu8Append c := by
  have small : c ≤ 0x10ffff := le_of_isValidCodepoint ((isValidCodepoint_iff_isValidChar c).mpr valid)
  have value : (Char.ofNat c).val.toNat = c := toNat_ofNat valid
  simp only [utf8, String.utf8EncodeChar, value, cbu8Append]
  split_ifs with one two three
  · rfl
  · rw [Nat.mod_eq_of_lt (show c / 64 < 0x20 by omega)]
    rfl
  · rw [Nat.mod_eq_of_lt (show c / 4096 < 0x10 by omega)]
    rfl
  · rw [Nat.mod_eq_of_lt (show c / 262144 < 8 by omega)]
    rfl

theorem writeUnicodeCharacter_eq {c : Nat} (valid : c.isValidChar) : writeUnicodeCharacter c = utf8.encode c := by
  rw [utf8_encode_eq valid, writeUnicodeCharacter]
  split
  next single => rw [cbu8Append, if_pos single]
  next => rfl

/-- A byte below 0x80 is a character of its own. -/
theorem eq_of_mem_utf8 {c : Nat} (valid : c.isValidChar) {byte : Byte} (member : byte ∈ utf8.encode c)
    (small : byte.toNat < 0x80) : c = byte.toNat := by
  have atMost := le_of_isValidCodepoint ((isValidCodepoint_iff_isValidChar c).mpr valid)
  have value {part : Nat} (fits : part < 256) : (BitVec.ofNat 8 part).toNat = part := Nat.mod_eq_of_lt fits
  rw [utf8_encode_eq valid, cbu8Append] at member
  split_ifs at member
  all_goals
    simp only [List.mem_cons, List.not_mem_nil, or_false] at member
    rcases member with rfl | rfl | rfl | rfl
    all_goals rw [value (by omega)] at small ⊢
    all_goals omega

theorem window_eq_slice (s : Nat → Byte) (i count : Nat) : window s i count = slice s i count := by
  induction count generalizing i with
  | zero => rfl
  | succ count ih =>
    rw [slice, ← ih, window, List.range'_succ, List.map_cons, window]

theorem readUnicodeCharacter_reads : Reads utf8 readUnicodeCharacter where
  advances s length i _ := lt_cbu8Next s i length
  sound s length i c inside found := by
    simp only [readUnicodeCharacter] at found ⊢
    split at found
    next both =>
      obtain ⟨n, decoded, codepoint, encoded, room⟩ := exists_of_cbu8Next inside both.1
      have valid := (isValidCodepoint_iff_isValidChar n).mp codepoint
      rw [decoded, Option.some.injEq, Int.toNat_natCast] at found
      subst found
      rw [utf8_encode_eq valid, decoded, window_eq_slice]
      exact ⟨valid, rfl, room, (encoded_iff (le_of_isValidCodepoint codepoint)).mp encoded⟩
    next => cases found
  complete s length i c inside valid room held := by
    have codepoint := (isValidCodepoint_iff_isValidChar c).mpr valid
    rw [utf8_encode_eq valid] at room held ⊢
    rw [window_eq_slice, ← encoded_iff (le_of_isValidCodepoint codepoint)] at held
    rw [readUnicodeCharacter, cbu8Next_of_encoded codepoint held room]
    simp only [Int.natCast_nonneg, Int.toNat_natCast, codepoint, and_self, if_true]

/-! ### 16-bit text is UTF-16 -/

theorem isTrail16_iff (c : Nat) : isTrail16 c = true ↔ 0xdc00 ≤ c ∧ c < 0xe000 := by
  simp only [isTrail16, decide_eq_true_eq]
  omega

theorem isSurrogateLead_iff {c : Nat} (surrogate : isSurrogate c = true) : isSurrogateLead c = true ↔ c < 0xdc00 := by
  rw [isSurrogate_iff] at surrogate
  simp only [isSurrogateLead, decide_eq_true_eq]
  omega

theorem writeUnicodeCharacter16_eq (c : Nat) : writeUnicodeCharacter16 c = utf16.encode c := by
  simp only [writeUnicodeCharacter16, cbu16Append, utf16]
  by_cases plane : c ≤ 0xffff
  · rw [if_pos plane, if_pos (by omega)]
  · have lead : c / 0x400 + 0xd7c0 = 0xd800 + (c - 0x10000) / 0x400 := by omega
    have trail : c % 0x400 + 0xdc00 = 0xdc00 + (c - 0x10000) % 0x400 := by omega
    rw [if_neg plane, if_neg plane, if_neg (by omega), lead, trail]

theorem utf16_encode_single {c : Nat} (plane : c < 0x10000) : utf16.encode c = [BitVec.ofNat 16 c] :=
  if_pos plane

theorem utf16_encode_pair {c : Nat} (beyond : 0x10000 ≤ c) : utf16.encode c =
    [BitVec.ofNat 16 (0xd800 + (c - 0x10000) / 0x400), BitVec.ofNat 16 (0xdc00 + (c - 0x10000) % 0x400)] :=
  if_neg (Nat.not_lt.mpr beyond)

theorem unit_eq {unit : Unit16} {value : Nat} (small : value < 0x10000) :
    unit = BitVec.ofNat 16 value ↔ unit.toNat = value := by
  rw [← BitVec.toNat_inj, BitVec.toNat_ofNat, Nat.mod_eq_of_lt small]

theorem readUnicodeCharacter16_reads : Reads utf16 readUnicodeCharacter16 where
  advances s length i _ := by
    simp only [readUnicodeCharacter16]
    split_ifs
    all_goals dsimp only
    all_goals omega
  sound s length i c _ found := by
    simp only [readUnicodeCharacter16] at found ⊢
    by_cases surrogate : isSurrogate (s i).toNat = true
    · rw [if_pos surrogate] at found ⊢
      by_cases unpaired : (!isSurrogateLead (s i).toNat || decide (length ≤ i + 1) || !isTrail16 (s (i + 1)).toNat) = true
      · rw [if_pos unpaired] at found
        cases found
      · rw [if_neg unpaired] at found ⊢
        simp only [Bool.not_eq_true, Bool.or_eq_false_iff, Bool.not_eq_false', decide_eq_false_iff_not, not_le] at unpaired
        obtain ⟨⟨lead, room⟩, trail⟩ := unpaired
        rw [isSurrogateLead_iff surrogate] at lead
        rw [isTrail16_iff] at trail
        rw [isSurrogate_iff] at surrogate
        dsimp only at found ⊢
        split at found
        next codepoint =>
          rw [Option.some.injEq] at found
          rw [found] at codepoint
          simp only [getSupplementary, surrogateOffset] at found
          have first : s i = BitVec.ofNat 16 (0xd800 + (c - 0x10000) / 0x400) := (unit_eq (by omega)).mpr (by omega)
          have second : s (i + 1) = BitVec.ofNat 16 (0xdc00 + (c - 0x10000) % 0x400) := (unit_eq (by omega)).mpr (by omega)
          rw [utf16_encode_pair (by omega), ← first, ← second]
          exact ⟨(isValidCodepoint_iff_isValidChar c).mp codepoint, rfl, room, rfl⟩
        next => cases found
    · rw [if_neg surrogate] at found ⊢
      dsimp only at found ⊢
      split at found
      next codepoint =>
        rw [Option.some.injEq] at found
        subst found
        rw [utf16_encode_single (s i).isLt, BitVec.ofNat_toNat, BitVec.setWidth_eq]
        exact ⟨(isValidCodepoint_iff_isValidChar _).mp codepoint, rfl, by assumption, rfl⟩
      next => cases found
  complete s length i c _ valid room held := by
    have codepoint := (isValidCodepoint_iff_isValidChar c).mpr valid
    have bounds := (isValidCodepoint_iff c).mp codepoint
    simp only [readUnicodeCharacter16]
    by_cases plane : c < 0x10000
    · rw [utf16_encode_single plane] at held ⊢
      have here : (s i).toNat = c := (unit_eq plane).mp (List.cons.inj held).1
      have single : ¬ isSurrogate (s i).toNat = true := by
        rw [isSurrogate_iff]
        omega
      rw [if_neg single, here, if_pos codepoint]
      rfl
    · rw [utf16_encode_pair (by omega)] at held room ⊢
      have first : (s i).toNat = 0xd800 + (c - 0x10000) / 0x400 := (unit_eq (by omega)).mp (List.cons.inj held).1
      have second : (s (i + 1)).toNat = 0xdc00 + (c - 0x10000) % 0x400 :=
        (unit_eq (by omega)).mp (List.cons.inj (List.cons.inj held).2).1
      have surrogate : isSurrogate (s i).toNat = true := by
        rw [isSurrogate_iff]
        omega
      have lead : isSurrogateLead (s i).toNat = true := by
        rw [isSurrogateLead_iff surrogate]
        omega
      have trail : isTrail16 (s (i + 1)).toNat = true := by
        rw [isTrail16_iff]
        omega
      have inside : ¬ length ≤ i + 1 := Nat.not_le.mpr room
      have value : getSupplementary (s i).toNat (s (i + 1)).toNat = c := by
        rw [getSupplementary, surrogateOffset]
        omega
      rw [if_pos surrogate, lead, trail, decide_eq_false inside, value, codepoint]
      rfl

end Libchrome.Base.Strings
