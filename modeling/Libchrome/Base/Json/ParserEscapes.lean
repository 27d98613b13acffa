import Libchrome.Base.Json.ParserStringLoop
import Libchrome.Base.Strings.StringNumberReading
import Libchrome.Base.Strings.UnicodeCharacters
import Mathlib.Data.List.TakeWhile

/-!
# The escapes of a JSON string

The escapes of the grammar, with two digits behind `\\x` and four behind `\\u`, and what `ConsumeStringRaw` makes of them. It
lets `HexStringToInt` look at the digits, which takes a sign and `0x` as well, and it appends what `\\u` stands for up to
the first zero.
-/

namespace Libchrome.Base.Json
open Library.Bytes Library.Cursor Library.TextEncoding NumberConversions
  Libchrome.Base.Utf8 Libchrome.Base.Strings

/-! ### Hexadecimal digits -/

/-- These are hexadecimal digits and spell this number. -/
def HexNumber (field : List Byte) (value : Nat) : Prop :=
  ∃ digits : List Nat, (field.map BitVec.toNat).map (charToDigitOf 16) = digits.map some ∧ spell 16 digits = value

theorem isHexDigit_iff (c : Byte) : isHexDigit c = true ↔ ∃ digit, charToDigitOf 16 c.toNat = some digit :=
  Option.isSome_iff_exists

variable {field : List Byte}

theorem exists_hexNumber (digits : field.all isHexDigit = true) : ∃ value, HexNumber field value := by
  have each : ∃ values : List Nat, (field.map BitVec.toNat).map (charToDigitOf 16) = values.map some := by
    induction field with
    | nil => exact ⟨[], rfl⟩
    | cons c rest ih =>
      rw [List.all_cons, Bool.and_eq_true] at digits
      obtain ⟨digit, converted⟩ := (isHexDigit_iff c).mp digits.1
      obtain ⟨values, others⟩ := ih digits.2
      exact ⟨digit :: values, by rw [List.map_cons, List.map_cons, List.map_cons, converted, others]⟩
  obtain ⟨values, converted⟩ := each
  exact ⟨spell 16 values, values, converted, rfl⟩

variable {value : Nat}

theorem HexNumber.digits (number : HexNumber field value) : field.all isHexDigit = true := by
  obtain ⟨values, converted, _⟩ := number
  rw [List.all_eq_true]
  intro c member
  have inside : charToDigitOf 16 c.toNat ∈ values.map some := by
    rw [← converted]
    exact List.mem_map_of_mem (List.mem_map_of_mem member)
  obtain ⟨digit, _, isDigit⟩ := List.mem_map.mp inside
  exact (isHexDigit_iff c).mpr ⟨digit, isDigit.symm⟩

theorem spell_lt {numerals digits : List Nat} (converted : numerals.map (charToDigitOf 16) = digits.map some) :
    spell 16 digits < 16 ^ numerals.length := by
  have length : digits.length = numerals.length := by
    have lengths := congrArg List.length converted
    rw [List.length_map, List.length_map] at lengths
    exact lengths.symm
  rw [spell, ← length, ← List.length_reverse]
  refine Nat.ofDigits_lt_base_pow_length (by decide) fun digit member => ?_
  have inside : some digit ∈ numerals.map (charToDigitOf 16) := by
    rw [converted]
    exact List.mem_map_of_mem (List.mem_reverse.mp member)
  obtain ⟨c, _, isDigit⟩ := List.mem_map.mp inside
  exact charToDigitOf_lt isDigit

theorem HexNumber.lt (number : HexNumber field value) : value < 16 ^ field.length := by
  obtain ⟨values, converted, rfl⟩ := number
  have small := spell_lt converted
  rwa [List.length_map] at small

/-- Digits are read as the number they spell. -/
theorem HexNumber.read (number : HexNumber field value) (some_ : field ≠ []) (short : field.length ≤ 4) :
    hexStringToInt field = some (value : Int) := by
  have small : value < 16 ^ 4 := number.lt.trans_le (Nat.pow_le_pow_right (by decide) short)
  obtain ⟨digits, converted, spelled⟩ := number
  have written : digits ≠ [] := by
    rintro rfl
    rw [List.map_nil, List.map_eq_nil_iff, List.map_eq_nil_iff] at converted
    exact some_ converted
  rw [hexStringToInt_iff]
  exact ⟨⟨false, [], [], field.map BitVec.toNat, digits, .inl rfl, .inl rfl, rfl, converted, written, by rw [spelled]; rfl⟩,
    by omega, by omega⟩

/-- A number in so many characters, all digits. -/
theorem HexNumber.readHex (number : HexNumber field value) (some_ : field ≠ []) (short : field.length ≤ 4)
    (rest : List Byte) : readHex field.length (field ++ rest) = some ⟨(value : Int), 0, rest⟩ := by
  rw [readHex_of_le (by rw [List.length_append]; exact Nat.le_add_right _ _), List.take_left, List.drop_left,
    number.read some_ short, Option.map_some, if_pos number.digits]

theorem digits_of_large {value : Int} (read : hexStringToInt field = some value) (four : field.length = 4)
    (large : 0x1000 ≤ value) : field.all isHexDigit = true := by
  obtain ⟨⟨negative, sign, radix, numerals, digits, isSign, isRadix, same, converted, _, rfl⟩, _⟩ :=
    (hexStringToInt_iff field value).mp read
  have lengths := congrArg List.length same
  rw [List.length_map, four, List.length_append, List.length_append] at lengths
  have small := spell_lt converted
  have atLeast : 0x1000 ≤ spell 16 digits := by
    rw [signedValue] at large
    split_ifs at large <;> omega
  have whole : 4 ≤ numerals.length := by
    by_contra fewer
    have power : 16 ^ numerals.length ≤ 16 ^ 3 := Nat.pow_le_pow_right (by decide) (by omega)
    omega
  have noSign : sign = [] := List.length_eq_zero_iff.mp (by omega)
  have noRadix : radix = [] := List.length_eq_zero_iff.mp (by omega)
  rw [noSign, noRadix, List.nil_append, List.nil_append] at same
  rw [← same] at converted
  exact HexNumber.digits ⟨digits, converted, rfl⟩

/-! ### The escapes of the grammar -/

/-- What may stand behind a backslash, and the code point it stands for. -/
inductive Escape : List Byte → Nat → Prop
  | simple {letter byte : Byte} (named : simpleEscape letter = some byte) : Escape [letter] byte.toNat
  | hex {field : List Byte} {value : Nat} (two : field.length = 2) (number : HexNumber field value) :
      Escape (ascii 'x' :: field) value
  | unit {field : List Byte} {value : Nat} (four : field.length = 4) (number : HexNumber field value)
      (single : value < 0xd800 ∨ 0xe000 ≤ value) : Escape (ascii 'u' :: field) value
  | pair {field : List Byte} {high low : Nat} {lowField : List Byte} (four : field.length = 4)
      (number : HexNumber field high) (lead : 0xd800 ≤ high ∧ high < 0xdc00) (lowFour : lowField.length = 4)
      (lowNumber : HexNumber lowField low) (trail : 0xdc00 ≤ low ∧ low < 0xe000) :
      Escape (ascii 'u' :: field ++ ascii '\\' :: ascii 'u' :: lowField)
        (0x10000 + (high - 0xd800) * 0x400 + (low - 0xdc00))

/-- `HexStringToInt` takes what is no digit, or the character is zero. -/
def oddEscape : List Byte → Bool
  | [] => false
  | letter :: rest =>
    if letter = ascii 'x' then
      2 ≤ rest.length && (hexStringToInt (rest.take 2)).isSome && !(rest.take 2).all isHexDigit
    else if letter = ascii 'u' then
      4 ≤ rest.length && (match hexStringToInt (rest.take 4) with
        | none => false
        | some value => value = 0 || (0 ≤ value && !(rest.take 4).all isHexDigit))
    else false

theorem Escape.isValidChar {front : List Byte} {c : Nat} (escape : Escape front c) : c.isValidChar := by
  cases escape with
  | simple named =>
    refine .inl ?_
    unfold simpleEscape at named
    split_ifs at named
    all_goals
      cases named
      decide
  | hex two number =>
    have small := number.lt
    rw [two] at small
    exact .inl (by omega)
  | unit four number single =>
    have small := number.lt
    rw [four] at small
    rcases single with below | above
    · exact .inl below
    · exact .inr ⟨by omega, by omega⟩
  | pair four number lead lowFour lowNumber trail => exact .inr ⟨by omega, by omega⟩

theorem codeUnit8_eq {c : Nat} (valid : c.isValidChar) (some_ : c ≠ 0) : codeUnit8 c = utf8.encode c := by
  rw [codeUnit8, Int.toNat_natCast, ← utf8_encode_eq valid, List.takeWhile_eq_self_iff]
  intro byte member
  rw [decide_eq_true_eq]
  rintro rfl
  exact some_ (eq_of_mem_utf8 valid member (by decide))

/-! ### Escapes that are read -/

section Reading

variable {bytes rest front : List Byte} {read : Read (List Byte)} {c : Nat}

theorem readHex_iff {count : Nat} {number : Read Int} : readHex count bytes = some number →
    count ≤ bytes.length ∧ hexStringToInt (bytes.take count) = some number.value ∧ number.rest = bytes.drop count := by
  intro digits
  unfold readHex at digits
  split at digits
  next room =>
    obtain ⟨value, isRead, rfl⟩ := Option.map_eq_some_iff.mp digits
    exact ⟨room, isRead, rfl⟩
  next => cases digits

/-- A number that is read from digits. -/
theorem exists_hexNumber_of_readHex {count : Nat} {number : Read Int} (digits : readHex count bytes = some number)
    (all : (bytes.take count).all isHexDigit = true) (some_ : count ≠ 0) (short : count ≤ 4) :
    ∃ value : Nat, number.value = value ∧ HexNumber (bytes.take count) value ∧ (bytes.take count).length = count := by
  obtain ⟨room, isRead, _⟩ := readHex_iff digits
  have length : (bytes.take count).length = count := List.length_take_of_le room
  obtain ⟨value, isNumber⟩ := exists_hexNumber all
  have same := isNumber.read (List.ne_nil_of_length_pos (by omega)) (by omega)
  rw [isRead, Option.some.injEq] at same
  exact ⟨value, same, isNumber, length⟩

theorem simple_ascii {letter byte : Byte} (named : simpleEscape letter = some byte) :
    byte.toNat < 0x80 ∧ letter ≠ ascii 'x' ∧ letter ≠ ascii 'u' := by
  unfold simpleEscape at named
  split_ifs at named
  all_goals
    cases named
    subst letter
    decide

theorem utf8_encode_byte {byte : Byte} (small : byte.toNat < 0x80) : utf8.encode byte.toNat = [byte] := by
  rw [utf8_encode_eq (.inl (by omega)), cbu8Append, if_pos (by omega), BitVec.ofNat_toNat, BitVec.setWidth_eq]

variable {value : Nat}

theorem hexCharacter_encode (small : value < 0x100) : hexCharacter value = utf8.encode value := by
  rw [hexCharacter_eq, utf8_encode_eq (.inl (by omega))]

theorem readLow_some {high : Nat} (lead : 0xd800 ≤ high ∧ high < 0xdc00) (low : readLow high bytes = some read) :
    ∃ field value, bytes = ascii '\\' :: ascii 'u' :: (field ++ read.rest) ∧ field.length = 4 ∧ HexNumber field value ∧
      (0xdc00 ≤ value ∧ value < 0xe000) ∧
        read.value = utf8.encode (0x10000 + (high - 0xd800) * 0x400 + (value - 0xdc00)) := by
  match bytes with
  | backslash :: letter :: others =>
    rw [readLow] at low
    split at low
    next both =>
      obtain ⟨rfl, rfl⟩ := both
      cases digits : readHex 4 others with
      | none =>
        rw [digits] at low
        cases low
      | some number =>
        rw [digits] at low
        dsimp only at low
        split at low
        next trail =>
          obtain ⟨room, isRead, behind⟩ := readHex_iff digits
          simp only [isTrail16, Bool.and_eq_true, decide_eq_true_eq] at trail
          have all := digits_of_large isRead (List.length_take_of_le room) (by omega)
          obtain ⟨value, same, isNumber, length⟩ := exists_hexNumber_of_readHex digits all (by decide) (by decide)
          rw [same] at trail low
          obtain rfl := Option.some.inj low
          refine ⟨_, value, ?_, length, isNumber, by omega, ?_⟩
          · dsimp only
            rw [behind, List.take_append_drop]
          · have supplementary : getSupplementary high value =
                ((0x10000 + (high - 0xd800) * 0x400 + (value - 0xdc00) : Nat) : Int) := by
              rw [getSupplementary]
              omega
            dsimp only
            rw [supplementary]
            exact codeUnit8_eq (.inr ⟨by omega, by omega⟩) (by omega)
        next => cases low
    next => cases low

/-- What is read as an escape that is not odd is one of the grammar, and contributes its code point. -/
theorem escape_of_readEscape (isRead : readEscape bytes = some read) (plain : oddEscape bytes = false) :
    ∃ front c, Escape front c ∧ bytes = front ++ read.rest ∧ read.value = utf8.encode c := by
  cases bytes with
  | nil => cases isRead
  | cons letter rest =>
    rw [readEscape] at isRead
    rw [oddEscape] at plain
    split at isRead
    next isX =>
      subst isX
      obtain ⟨number, digits, rfl⟩ := Option.map_eq_some_iff.mp isRead
      obtain ⟨room, taken, behind⟩ := readHex_iff digits
      rw [if_pos rfl, taken, decide_eq_true room] at plain
      have all : (rest.take 2).all isHexDigit = true := by simpa using plain
      obtain ⟨value, same, isNumber, length⟩ := exists_hexNumber_of_readHex digits all (by decide) (by decide)
      have small := isNumber.lt
      rw [length] at small
      refine ⟨_, value, .hex length isNumber, ?_, ?_⟩
      · rw [List.cons_append, Read.map, behind, List.take_append_drop]
      · rw [Read.map, same]
        dsimp only
        exact hexCharacter_encode (by omega)
    next notX =>
      rw [if_neg notX] at plain
      split at isRead
      next isU =>
        subst isU
        rw [readUtf16] at isRead
        cases digits : readHex 4 rest with
        | none =>
          rw [digits] at isRead
          cases isRead
        | some number =>
          rw [digits] at isRead
          obtain ⟨room, taken, behind⟩ := readHex_iff digits
          rw [if_pos rfl, taken, decide_eq_true room] at plain
          simp only [Bool.true_and, Bool.or_eq_false_iff, Bool.and_eq_false_iff, decide_eq_false_iff_not,
            Bool.not_eq_false'] at plain
          dsimp only at isRead
          have all : (rest.take 4).all isHexDigit = true := by
            refine plain.2.resolve_left fun negative => ?_
            have invalid : ¬ isValidCharacter number.value = true := fun valid =>
              negative (nonneg_of_isValidCharacter valid)
            rw [if_neg (by simp only [isSurrogate16, Bool.and_eq_true, decide_eq_true_eq]; omega), if_neg invalid] at isRead
            cases isRead
          obtain ⟨value, same, isNumber, length⟩ := exists_hexNumber_of_readHex digits all (by decide) (by decide)
          have small := isNumber.lt
          rw [length] at small
          rw [same] at isRead plain
          split at isRead
          next surrogate =>
            simp only [isSurrogate16, Bool.and_eq_true, decide_eq_true_eq] at surrogate
            split at isRead
            next lead =>
              simp only [isSurrogateLead, decide_eq_true_eq] at lead
              obtain ⟨low, isLow, rfl⟩ := Option.map_eq_some_iff.mp isRead
              obtain ⟨lowField, lowValue, split, lowFour, lowNumber, trail, written⟩ := readLow_some ⟨by omega, by omega⟩ isLow
              refine ⟨_, _, .pair length isNumber ⟨by omega, by omega⟩ lowFour lowNumber trail, ?_, written⟩
              rw [behind] at split
              dsimp only
              rw [List.cons_append, List.cons_append, List.append_assoc, List.cons_append, List.cons_append, ← split,
                List.take_append_drop]
            next => cases isRead
          next notSurrogate =>
            simp only [isSurrogate16, Bool.and_eq_true, decide_eq_true_eq] at notSurrogate
            split at isRead
            next valid =>
              obtain rfl := Option.some.inj isRead
              have escape := Escape.unit length isNumber (by omega)
              refine ⟨_, value, escape, ?_, ?_⟩
              · dsimp only
                rw [List.cons_append, behind, List.take_append_drop]
              · exact codeUnit8_eq escape.isValidChar (by omega)
            next => cases isRead
      next notU =>
        obtain ⟨byte, named, rfl⟩ := Option.map_eq_some_iff.mp isRead
        exact ⟨[letter], byte.toNat, .simple named, rfl, (utf8_encode_byte (simple_ascii named).1).symm⟩

theorem isSurrogate16_iff : isSurrogate16 value = true ↔ 0xd800 ≤ value ∧ value < 0xe000 := by
  simp only [isSurrogate16, Bool.and_eq_true, decide_eq_true_eq]
  omega

variable {field : List Byte}

theorem readUtf16_unit (four : field.length = 4) (number : HexNumber field value)
    (single : value < 0xd800 ∨ 0xe000 ≤ value) : readUtf16 (field ++ rest) =
      if isValidCharacter value then some ⟨codeUnit8 value, 0, rest⟩ else none := by
  have digits := number.readHex (List.ne_nil_of_length_pos (by omega)) four.le rest
  rw [four] at digits
  rw [readUtf16, digits]
  dsimp only
  rw [if_neg (by rw [isSurrogate16_iff]; omega)]

theorem readUtf16_pair {lowField : List Byte} {high low : Nat} (four : field.length = 4)
    (number : HexNumber field high) (lead : 0xd800 ≤ high ∧ high < 0xdc00) (lowFour : lowField.length = 4)
    (lowNumber : HexNumber lowField low) (trail : 0xdc00 ≤ low ∧ low < 0xe000)
    (isRead : readUtf16 (field ++ ascii '\\' :: ascii 'u' :: (lowField ++ rest)) = some read) : read.rest = rest ∧
      read.value = utf8.encode (0x10000 + (high - 0xd800) * 0x400 + (low - 0xdc00)) := by
  have digits := number.readHex (List.ne_nil_of_length_pos (by omega)) four.le
    (ascii '\\' :: ascii 'u' :: (lowField ++ rest))
  have lowDigits := lowNumber.readHex (List.ne_nil_of_length_pos (by omega)) lowFour.le rest
  rw [four] at digits
  rw [lowFour] at lowDigits
  rw [readUtf16, digits] at isRead
  dsimp only at isRead
  rw [if_pos (isSurrogate16_iff.mpr ⟨lead.1, by omega⟩),
    if_pos (by simp only [isSurrogateLead, decide_eq_true_eq]; omega)] at isRead
  obtain ⟨units, isLow, rfl⟩ := Option.map_eq_some_iff.mp isRead
  rw [readLow, if_pos ⟨rfl, rfl⟩, lowDigits] at isLow
  dsimp only at isLow
  split at isLow
  next =>
    obtain rfl := Option.some.inj isLow
    have supplementary : getSupplementary high low =
        ((0x10000 + (high - 0xd800) * 0x400 + (low - 0xdc00) : Nat) : Int) := by
      rw [getSupplementary]
      omega
    refine ⟨rfl, ?_⟩
    dsimp only
    rw [supplementary]
    exact codeUnit8_eq (.inr ⟨by omega, by omega⟩) (by omega)
  next => cases isLow

theorem oddEscape_unit (four : field.length = 4) (number : HexNumber field value) :
    oddEscape (ascii 'u' :: field ++ rest) = decide (value = 0) := by
  have taken : (field ++ rest).take 4 = field := by
    rw [← four]
    exact List.take_left
  have room : 4 ≤ (field ++ rest).length := by
    rw [List.length_append]
    omega
  rw [List.cons_append, oddEscape, if_neg (by decide), if_pos rfl, decide_eq_true room, taken,
    number.read (List.ne_nil_of_length_pos (by omega)) four.le, number.digits]
  simp

/-- An escape of the grammar is read to its end and contributes its code point, but for the zero of `\\u`. -/
theorem readEscape_of_escape (escape : Escape front c) (isRead : readEscape (front ++ rest) = some read) :
    read.rest = rest ∧ ((read.value = utf8.encode c ∧ oddEscape (front ++ rest) = false) ∨
      (read.value = [] ∧ oddEscape (front ++ rest) = true)) := by
  cases escape with
  | @simple letter byte named =>
    obtain ⟨small, notX, notU⟩ := simple_ascii named
    rw [List.singleton_append, readEscape, if_neg notX, if_neg notU, named] at isRead
    cases isRead
    refine ⟨rfl, .inl ⟨(utf8_encode_byte small).symm, ?_⟩⟩
    rw [List.singleton_append, oddEscape, if_neg notX, if_neg notU]
  | @hex field _ two number =>
    have digits := number.readHex (List.ne_nil_of_length_pos (by omega)) (by omega) rest
    have taken : (field ++ rest).take 2 = field := by
      rw [← two]
      exact List.take_left
    rw [two] at digits
    rw [List.cons_append, readEscape, if_pos rfl, digits, Option.map_some, Option.some.injEq] at isRead
    subst isRead
    have small := number.lt
    rw [two] at small
    have written : hexCharacter c = utf8.encode c := hexCharacter_encode (by omega)
    simp only [Read.map]
    refine ⟨trivial, .inl ⟨written, ?_⟩⟩
    rw [List.cons_append, oddEscape, if_pos rfl, taken, number.digits, Bool.not_true, Bool.and_false]
  | @unit field _ four number single =>
    rw [List.cons_append, readEscape, if_neg (by decide), if_pos rfl, readUtf16_unit four number single] at isRead
    rw [oddEscape_unit four number]
    have valid := (Escape.unit four number single).isValidChar
    split at isRead
    next =>
      obtain rfl := Option.some.inj isRead
      refine ⟨rfl, ?_⟩
      by_cases zero : c = 0
      · subst zero
        exact .inr ⟨rfl, rfl⟩
      · exact .inl ⟨codeUnit8_eq valid zero, decide_eq_false zero⟩
    next => cases isRead
  | @pair field high low lowField four number lead lowFour lowNumber trail =>
    have same : ascii 'u' :: field ++ ascii '\\' :: ascii 'u' :: lowField ++ rest =
        ascii 'u' :: field ++ ascii '\\' :: ascii 'u' :: (lowField ++ rest) := by simp
    rw [same] at isRead ⊢
    rw [List.cons_append, readEscape, if_neg (by decide), if_pos rfl] at isRead
    obtain ⟨behind, value⟩ := readUtf16_pair four number lead lowFour lowNumber trail isRead
    refine ⟨behind, .inl ⟨value, ?_⟩⟩
    rw [oddEscape_unit four number, decide_eq_false (by omega)]

/-! ### Strings -/

/-- What may stand in a string, and its code point. -/
inductive Item : List Byte → Nat → Prop
  | plain {c : Nat} (valid : isValidCharacter c = true) (notQuote : c ≠ 0x22) (notBackslash : c ≠ 0x5c) :
      Item (utf8.encode c) c
  | escape {front : List Byte} {c : Nat} (escape : Escape front c) : Item (ascii '\\' :: front) c

/-- Up to the quote that closes it, or to the end of the text, a string is of items, and this is what they encode. -/
inductive WellEscaped : List Byte → List Byte → Prop
  | closed (rest : List Byte) : WellEscaped (ascii '"' :: rest) []
  | ended : WellEscaped [] []
  | item {front rest value : List Byte} {c : Nat} (item : Item front c) (others : WellEscaped rest value) :
      WellEscaped (front ++ rest) (utf8.encode c ++ value)

/-- Up to the same place, what the reading makes of a string. -/
inductive Taken : List Byte → List Byte → Prop
  | closed (rest : List Byte) : Taken (ascii '"' :: rest) []
  | ended : Taken [] []
  | character {c : Byte} {rest value : List Byte} {front : Read (List Byte)} (notQuote : c ≠ ascii '"')
      (isRead : readCharacter (c :: rest) = some front) (others : Taken front.rest value) :
      Taken (c :: rest) (front.value ++ value)

/-- No escape before the closing quote is odd. -/
def plainEscapes : List Byte → Bool
  | [] => true
  | [_] => true
  | c :: next :: rest =>
    if c = ascii '"' then true
    else if c = ascii '\\' then !oddEscape (next :: rest) && plainEscapes rest
    else plainEscapes (next :: rest)

theorem plainEscapes_quote (rest : List Byte) : plainEscapes (ascii '"' :: rest) = true := by
  cases rest with
  | nil => rfl
  | cons next rest => rw [plainEscapes, if_pos rfl]

theorem plainEscapes_skip {c : Byte} (notQuote : c ≠ ascii '"') (notBackslash : c ≠ ascii '\\') (rest : List Byte) :
    plainEscapes (c :: rest) = plainEscapes rest := by
  cases rest with
  | nil => rfl
  | cons next rest => rw [plainEscapes, if_neg notQuote, if_neg notBackslash]

theorem plainEscapes_skipAll {front : List Byte} (plain : ∀ c ∈ front, c ≠ ascii '"' ∧ c ≠ ascii '\\') (rest : List Byte) :
    plainEscapes (front ++ rest) = plainEscapes rest := by
  induction front with
  | nil => rfl
  | cons c front ih =>
    have first := plain c List.mem_cons_self
    rw [List.cons_append, plainEscapes_skip first.1 first.2]
    exact ih fun other member => plain other (List.mem_cons_of_mem c member)

theorem plainEscapes_backslash (letter : Byte) (rest : List Byte) : plainEscapes (ascii '\\' :: letter :: rest) =
    (!oddEscape (letter :: rest) && plainEscapes rest) := by
  rw [plainEscapes, if_neg (by decide), if_pos rfl]

theorem plain_of_digits (number : HexNumber field value) : ∀ c ∈ field, c ≠ ascii '"' ∧ c ≠ ascii '\\' := by
  intro c member
  have digit := List.all_eq_true.mp number.digits c member
  constructor
  · rintro rfl
    exact absurd digit (by decide)
  · rintro rfl
    exact absurd digit (by decide)

theorem plainEscapes_escape (escape : Escape front c) (rest : List Byte) : plainEscapes (ascii '\\' :: front ++ rest) =
    (!oddEscape (front ++ rest) && plainEscapes rest) := by
  cases escape with
  | simple named => exact plainEscapes_backslash _ rest
  | hex two number =>
    rw [List.cons_append, List.cons_append, plainEscapes_backslash, plainEscapes_skipAll (plain_of_digits number)]
  | unit four number single =>
    rw [List.cons_append, List.cons_append, plainEscapes_backslash, plainEscapes_skipAll (plain_of_digits number)]
  | @pair field high low lowField four number lead lowFour lowNumber trail =>
    have notOdd : oddEscape (ascii 'u' :: (lowField ++ rest)) = false := by
      rw [← List.cons_append, oddEscape_unit lowFour lowNumber, decide_eq_false (by omega)]
    rw [List.cons_append, List.cons_append, List.cons_append, plainEscapes_backslash, List.append_assoc,
      plainEscapes_skipAll (plain_of_digits number), List.cons_append, List.cons_append, plainEscapes_backslash,
      plainEscapes_skipAll (plain_of_digits lowNumber), notOdd, Bool.not_false, Bool.true_and]

theorem plain_of_utf8 {c : Nat} (valid : c.isValidChar) (notQuote : c ≠ 0x22) (notBackslash : c ≠ 0x5c) :
    ∀ byte ∈ utf8.encode c, byte ≠ ascii '"' ∧ byte ≠ ascii '\\' := by
  intro byte member
  constructor
  · rintro rfl
    exact notQuote (eq_of_mem_utf8 valid member (by decide))
  · rintro rfl
    exact notBackslash (eq_of_mem_utf8 valid member (by decide))

theorem isValidChar_of_isValidCharacter {c : Nat} (valid : isValidCharacter c = true) : c.isValidChar :=
  (isValidCodepoint_iff_isValidChar c).mp (isValidCodepoint_of_isValidCharacter valid)

theorem item_of_readCharacter {first : Byte} (notQuote : first ≠ ascii '"')
    (isRead : readCharacter (first :: rest) = some read) (plain : plainEscapes (first :: rest) = true) :
    ∃ front c, Item front c ∧ first :: rest = front ++ read.rest ∧ read.value = utf8.encode c ∧
      plainEscapes read.rest = true := by
  rw [readCharacter] at isRead
  cases decoded : decodeFirst (first :: rest) with
  | none =>
    rw [decoded] at isRead
    cases isRead
  | some character =>
    obtain ⟨n, behind⟩ := character
    obtain ⟨valid, split⟩ := eq_append_of_decodeFirst decoded (List.cons_ne_nil _ _)
    have validChar := isValidChar_of_isValidCharacter valid
    rw [← utf8_encode_eq validChar] at split
    rw [decoded] at isRead
    dsimp only at isRead
    split at isRead
    next backslash =>
      rw [backslash, utf8_encode_eq (by decide)] at split
      obtain ⟨rfl, rfl⟩ := List.cons.inj split
      have notOdd : oddEscape rest = false := by
        cases rest with
        | nil => rfl
        | cons letter rest =>
          have scanned := plainEscapes_backslash letter rest
          rw [show plainEscapes (ascii '\\' :: letter :: rest) = true from plain] at scanned
          simpa using (Bool.and_eq_true_iff.mp scanned.symm).1
      obtain ⟨front, c, escape, same, value⟩ := escape_of_readEscape isRead notOdd
      refine ⟨_, c, .escape escape, by rw [same]; rfl, value, ?_⟩
      have scanned := plainEscapes_escape escape read.rest
      rw [List.cons_append, ← same, show plainEscapes (ascii '\\' :: rest) = true from plain] at scanned
      exact (Bool.and_eq_true_iff.mp scanned.symm).2
    next notBackslash =>
      obtain rfl := Option.some.inj isRead
      have notQuoteValue : n ≠ 0x22 := by
        rintro rfl
        rw [utf8_encode_eq (by decide)] at split
        exact notQuote (List.cons.inj split).1
      refine ⟨_, n, .plain valid notQuoteValue notBackslash, split, (utf8_encode_eq validChar).symm, ?_⟩
      rw [split, plainEscapes_skipAll (plain_of_utf8 validChar notQuoteValue notBackslash)] at plain
      exact plain

theorem Item.isValidChar (item : Item front c) : c.isValidChar := by
  cases item with
  | plain valid => exact isValidChar_of_isValidCharacter valid
  | escape escape => exact escape.isValidChar

theorem Item.exists_cons (item : Item front c) : ∃ first others, front = first :: others ∧ first ≠ ascii '"' := by
  cases item with
  | plain valid notQuote notBackslash =>
    have validChar := isValidChar_of_isValidCharacter valid
    obtain ⟨first, others, same⟩ := List.exists_cons_of_ne_nil (utf8.encode_ne_nil c validChar)
    refine ⟨first, others, same, (plain_of_utf8 validChar notQuote notBackslash first ?_).1⟩
    rw [same]
    exact List.mem_cons_self
  | escape escape => exact ⟨_, _, rfl, by decide⟩

theorem readCharacter_of_item (item : Item front c) (isRead : readCharacter (front ++ rest) = some read) :
    read.rest = rest ∧ ((read.value = utf8.encode c ∧ plainEscapes (front ++ rest) = plainEscapes rest) ∨
      (read.value = [] ∧ plainEscapes (front ++ rest) = false)) := by
  cases item with
  | plain valid notQuote notBackslash =>
    have validChar := isValidChar_of_isValidCharacter valid
    rw [readCharacter, utf8_encode_eq validChar, decodeFirst_append valid] at isRead
    dsimp only at isRead
    rw [if_neg notBackslash] at isRead
    obtain rfl := Option.some.inj isRead
    refine ⟨rfl, .inl ⟨(utf8_encode_eq validChar).symm, ?_⟩⟩
    exact plainEscapes_skipAll (plain_of_utf8 validChar notQuote notBackslash) rest
  | @escape front _ escape =>
    have first : decodeFirst (ascii '\\' :: front ++ rest) = some (0x5c, front ++ rest) :=
      @decodeFirst_append 0x5c (by decide) (front ++ rest)
    rw [readCharacter, first] at isRead
    dsimp only at isRead
    rw [if_pos rfl] at isRead
    obtain ⟨behind, contributed⟩ := readEscape_of_escape escape isRead
    rw [plainEscapes_escape escape]
    refine ⟨behind, contributed.imp ?_ ?_⟩
    · rintro ⟨value, notOdd⟩
      exact ⟨value, by rw [notOdd, Bool.not_false, Bool.true_and]⟩
    · rintro ⟨value, isOdd⟩
      exact ⟨value, by rw [isOdd, Bool.not_true, Bool.false_and]⟩

theorem Taken.exists_read {value : List Byte} (item : Item front c) (taken : Taken (front ++ rest) value) :
    ∃ read others, readCharacter (front ++ rest) = some read ∧ Taken read.rest others ∧ value = read.value ++ others := by
  obtain ⟨first, tail, rfl, notQuote⟩ := item.exists_cons
  cases taken with
  | closed => exact absurd rfl notQuote
  | character _ isRead others => exact ⟨_, _, isRead, others, rfl⟩

theorem Taken.length_le {value expected : List Byte} (taken : Taken bytes value) (wellEscaped : WellEscaped bytes expected) :
    value.length ≤ expected.length := by
  induction wellEscaped generalizing value with
  | closed rest =>
    cases taken with
    | closed => exact Nat.le_refl _
    | character notQuote => exact absurd rfl notQuote
  | ended =>
    cases taken
    exact Nat.le_refl _
  | item item _ ih =>
    obtain ⟨read, others, isRead, behind, rfl⟩ := taken.exists_read item
    obtain ⟨rfl, contributed⟩ := readCharacter_of_item item isRead
    have shorter := ih behind
    rw [List.length_append, List.length_append]
    rcases contributed with ⟨same, _⟩ | ⟨nothing, _⟩
    · rw [same]
      omega
    · rw [nothing, List.length_nil]
      omega

/-- The escapes of a string are of the grammar and contribute their code points, if and only if none of them is odd. -/
theorem Taken.wellEscaped_iff {value : List Byte} (taken : Taken bytes value) :
    WellEscaped bytes value ↔ plainEscapes bytes = true := by
  constructor
  · intro wellEscaped
    induction wellEscaped with
    | closed rest => exact plainEscapes_quote rest
    | ended => rfl
    | item item others ih =>
      obtain ⟨read, value, isRead, behind, same⟩ := taken.exists_read item
      obtain ⟨rfl, contributed⟩ := readCharacter_of_item item isRead
      rcases contributed with ⟨written, scanned⟩ | ⟨nothing, _⟩
      · rw [written, List.append_cancel_left_eq] at same
        rw [scanned]
        exact ih (same ▸ behind)
      · have atMost := behind.length_le others
        have lengths := congrArg List.length same
        rw [nothing, List.nil_append, List.length_append] at lengths
        obtain ⟨first, tail, encoded⟩ := List.exists_cons_of_ne_nil (utf8.encode_ne_nil _ item.isValidChar)
        rw [encoded, List.length_cons] at lengths
        omega
  · intro plain
    induction taken with
    | closed rest => exact .closed rest
    | ended => exact .ended
    | character notQuote isRead _ ih =>
      obtain ⟨front, c, item, split, value, others⟩ := item_of_readCharacter notQuote isRead plain
      rw [split, value]
      exact .item item (ih others)

end Reading

/-! ### The parser -/

section Parsing

variable {D : Type} {p : Parser D} {depth : Nat} {s s' : State} {bytes rest decoded : List Byte}
  {string result : StringBuilder}

theorem consumeStringFrom_end_eq (fuel : Nat) (in_ : InString p depth s [])
    (accepted : consumeStringFrom p (fuel + 1) string s = (some result, s')) : result = string := by
  by_cases inside : s.pos < p.source.text.length
  · have index : s.index = p.source.text.length := Buffer.eq_length_of_drop in_.ahead (in_.within inside)
    rw [consumeStringFrom, if_pos (canConsume_iff.mpr inside), index] at accepted
    generalize cbu8Next p.source.read p.source.text.length p.source.text.length = next at accepted
    obtain ⟨c, next⟩ := next
    have cannot : canConsume p 1 { s with pos := p.source.text.length, index := next } = false := by
      rw [← Bool.not_eq_true, canConsume_iff]
      simp
    dsimp only at accepted
    split at accepted
    next => cases accepted
    next =>
      split at accepted
      next =>
        rw [if_pos (by rw [cannot]; exact Bool.false_ne_true)] at accepted
        cases accepted
      next =>
        split at accepted
        next =>
          cases accepted
          rfl
        next =>
          have beyond := consumeStringFrom_beyond (p := p) fuel
            (if c < kExtendedASCIIStart then string.append (BitVec.ofInt 8 c) else decodeUTF8 p.source c string)
            (s := { s with pos := p.source.text.length, index := next }) (Nat.le_refl _)
          rw [accepted] at beyond
          cases beyond
  · have beyond := consumeStringFrom_beyond (fuel + 1) string (Nat.le_of_not_lt inside)
    rw [accepted] at beyond
    cases beyond

theorem consumeStringFrom_taken {fuel : Nat} (enough : bytes.length < fuel) (in_ : InString p depth s bytes)
    (built : Built p string decoded s.index) (accepted : consumeStringFrom p fuel string s = (some result, s')) :
    ∃ value, Taken bytes value ∧ result.asString p.source = decoded ++ value := by
  induction fuel generalizing s bytes decoded string with
  | zero => exact absurd enough (Nat.not_lt_zero _)
  | succ fuel ih =>
    cases bytes with
    | nil =>
      have same := consumeStringFrom_end_eq fuel in_ accepted
      exact ⟨[], .ended, by rw [same, built.1, List.append_nil]⟩
    | cons c rest =>
      have inside := Buffer.lt_of_drop in_.ahead
      have more : canConsume p 1 s = true := canConsume_iff.mpr (in_.order.trans_lt inside)
      by_cases valid : isValidCharacter (cbu8Next p.source.read s.index p.source.text.length).1 = true
      · obtain ⟨n, behind, here⟩ := exists_decoded in_.ahead valid
        have shorter := here.shorter
        rw [consumeStringFrom_decoded fuel string more here inside] at accepted
        dsimp only at accepted
        by_cases backslash : c = ascii '\\'
        · obtain ⟨on, split⟩ := here.on_backslash in_ backslash
          subst split
          have converted := string_convert p.source string
          rw [built.1] at converted
          have escaped := consumeEscape_escaped converted on
          rw [if_pos backslash] at accepted
          rcases consumed : consumeEscape p (string.convert p.source)
            (decodedState s (s.index + (cbu8Append n).length)) with ⟨_ | builder, s''⟩ <;> rw [consumed] at escaped accepted
          · cases accepted
          · rcases escaped with ⟨front, last, read, taken, on'⟩ | ⟨_, beyond⟩
            · have fewer := readEscape_shorter read
              rw [List.length_cons] at enough
              obtain ⟨value, others, same⟩ := ih (show front.rest.length < fuel by omega) on'.inString
                (built_of_string taken s''.index) accepted
              refine ⟨front.value ++ value, .character (by rw [backslash]; decide) ?_ others, ?_⟩
              · have isBackslash : n = 0x5c := (here.eq_ascii (show (ascii '\\').toNat < 0x80 by decide)).mpr backslash
                rw [readCharacter, here.first]
                dsimp only
                rw [if_pos isBackslash]
                exact read
              · rw [same, List.append_assoc]
            · have failed := consumeStringFrom_beyond fuel builder beyond
              dsimp only at accepted
              rw [accepted] at failed
              cases failed
        · rw [if_neg backslash] at accepted
          by_cases quote : c = ascii '"'
          · rw [if_pos quote] at accepted
            cases accepted
            subst quote
            exact ⟨[], .closed rest, by rw [built.1, List.append_nil]⟩
          · rw [if_neg quote] at accepted
            obtain ⟨value, others, same⟩ := ih (show behind.length < fuel by omega) (here.inString in_.ahead in_.depth)
              (here.built in_.ahead built) accepted
            refine ⟨cbu8Append n ++ value, .character quote (here.readCharacter backslash) others, ?_⟩
            rw [same, List.append_assoc]
      · have invalid := consumeStringFrom_invalid fuel string more valid
        rw [accepted] at invalid
        cases invalid

theorem consumeStringRaw_taken (at_ : At p depth s (ascii '"' :: bytes))
    (accepted : consumeStringRaw p s = (some result, s')) : Taken bytes (result.asString p.source) := by
  rw [consumeStringRaw_quote at_] at accepted
  obtain ⟨value, taken, same⟩ := consumeStringFrom_taken at_.enough at_.inString at_.built accepted
  rw [same, List.nil_append]
  exact taken

/-- In each string that the parser accepts the escapes are of the grammar and contribute their code points, if and only if
none of them is odd. -/
theorem consumeStringRaw_wellEscaped_iff (at_ : At p depth s (ascii '"' :: bytes))
    (accepted : consumeStringRaw p s = (some result, s')) :
    WellEscaped bytes (result.asString p.source) ↔ plainEscapes bytes = true :=
  (consumeStringRaw_taken at_ accepted).wellEscaped_iff

/-- A new parser of a text that a zero ends. -/
def parserOfText (text : List Char) : Parser Empty := ⟨noDoubles, parseRfc, text.map ascii, fun _ => 0⟩

/-- The string `A`, as an escape. -/
theorem wellEscaped_hex : WellEscaped (['\\', 'x', '4', '1', '"'].map ascii) [0x41] ↔
    plainEscapes (['\\', 'x', '4', '1', '"'].map ascii) = true :=
  have at_ : At (parserOfText ['"', '\\', 'x', '4', '1', '"']) 0 start (ascii '"' :: ['\\', 'x', '4', '1', '"'].map ascii) :=
    ⟨rfl, rfl, rfl⟩
  have accepted : consumeStringRaw (parserOfText ['"', '\\', 'x', '4', '1', '"']) start =
      (some ⟨1, 0, some [0x41]⟩, ⟨5, 5, 0, 1, 0, .noError, 0, 0⟩) := by
    decide +kernel
  consumeStringRaw_wellEscaped_iff at_ accepted

/-- `HexStringToInt` takes `-1`, which is no two digits, and the string gets the byte `0xff`. -/
theorem signedHex_accepted :
    consumeStringRaw (parserOfText ['"', '\\', 'x', '-', '1', '"']) start =
        (some ⟨1, 0, some [0xff]⟩, ⟨5, 5, 0, 1, 0, .noError, 0, 0⟩) ∧
      ¬ WellEscaped (['\\', 'x', '-', '1', '"'].map ascii) [0xff] := by
  have accepted : consumeStringRaw (parserOfText ['"', '\\', 'x', '-', '1', '"']) start =
      (some ⟨1, 0, some [0xff]⟩, ⟨5, 5, 0, 1, 0, .noError, 0, 0⟩) := by
    decide +kernel
  have at_ : At (parserOfText ['"', '\\', 'x', '-', '1', '"']) 0 start (ascii '"' :: ['\\', 'x', '-', '1', '"'].map ascii) :=
    ⟨rfl, rfl, rfl⟩
  refine ⟨accepted, fun wellEscaped => ?_⟩
  have plain := (consumeStringRaw_taken at_ accepted).wellEscaped_iff.mp wellEscaped
  exact absurd plain (by decide)

end Parsing

end Libchrome.Base.Json
