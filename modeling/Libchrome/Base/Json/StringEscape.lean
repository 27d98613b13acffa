import Libchrome.Base.Strings.UtfConversions

/-!
# `EscapeJSONString` of any text

The template of `string_escape.cc` for 8-bit and 16-bit text. Whatever it is given, what it writes between the quotes can
stand inside a JSON string inside a script.
-/

namespace Libchrome.Base.Json
open Library.Bytes Library.TextEncoding NumberConversions Utf8
  Libchrome.Base.Strings

/-- `std::numeric_limits<int32_t>::max()`. -/
def int32Max : Nat := 2 ^ 31 - 1

/-- `EscapeJSONStringImpl`: what it appends, and what it returns; none where its `CHECK_LE` fails. -/
def escapeJSONStringImpl {w : Nat} (read : (Nat → BitVec w) → Nat → Nat → Option Nat × Nat) (str : List (BitVec w))
    (putInQuotes : Bool) : Option (List Byte × Bool) :=
  let quote := if putInQuotes then [ascii '"'] else []
  if str.length ≤ int32Max then
    let (escaped, success) :=
      scan (read (fun i => str.getD i 0) str.length) escapeCodePoint kReplacementCodePoint str.length str.length 0
    some (quote ++ escaped ++ quote, success)
  else none

/-- `EscapeJSONString` of a `StringPiece`. -/
def escapeJSONString8 (str : List Byte) (putInQuotes : Bool) : Option (List Byte × Bool) :=
  escapeJSONStringImpl readUnicodeCharacter str putInQuotes

/-- `EscapeJSONString` of a `StringPiece16`. -/
def escapeJSONString16 (str : List Unit16) (putInQuotes : Bool) : Option (List Byte × Bool) :=
  escapeJSONStringImpl readUnicodeCharacter16 str putInQuotes

/-! ### Quotes and backslashes -/

/-- Whether the run of backslashes that ends here is odd, from the same before this byte. -/
def oddBackslashes (odd : Bool) (byte : Byte) : Bool := byte = ascii '\\' && !odd

/-- Every quotation mark has an odd run of backslashes before it. -/
def quotesEscaped : Bool → List Byte → Bool
  | _, [] => true
  | odd, byte :: rest => (byte != ascii '"' || odd) && quotesEscaped (oddBackslashes odd byte) rest

/-- The number of backslashes at the end. -/
def trailingBackslashes (text : List Byte) : Nat := (text.reverse.takeWhile (· == ascii '\\')).length

theorem quotesEscaped_append (odd : Bool) (first second : List Byte) : quotesEscaped odd (first ++ second) =
    (quotesEscaped odd first && quotesEscaped (first.foldl oddBackslashes odd) second) := by
  induction first generalizing odd with
  | nil => rfl
  | cons byte rest ih => rw [List.cons_append, quotesEscaped, quotesEscaped, ih, List.foldl_cons, Bool.and_assoc]

theorem foldl_oddBackslashes (text : List Byte) :
    text.foldl oddBackslashes false = true ↔ trailingBackslashes text % 2 = 1 := by
  induction text using List.reverseRecOn with
  | nil => exact iff_of_false nofun (by decide)
  | append_singleton text byte ih =>
    rw [List.foldl_append, List.foldl_cons, List.foldl_nil, oddBackslashes, trailingBackslashes, List.reverse_append,
      List.reverse_singleton, List.singleton_append, List.takeWhile_cons]
    by_cases backslash : byte = ascii '\\'
    · rw [trailingBackslashes] at ih
      simp only [backslash, decide_true, Bool.true_and, beq_self_eq_true, if_true, List.length_cons]
      rw [Bool.not_eq_true', ← Bool.not_eq_true, ih]
      omega
    · simp [backslash]

/-! ### Pieces of a string -/

/-- Text that can stand between quotes, before any other such text. -/
structure Piece (text : List Byte) : Prop where
  characters : ∃ codePoints : List Nat, (∀ c ∈ codePoints, c.isValidChar ∧ c ≠ 0x2028 ∧ c ≠ 0x2029) ∧
    text = codePoints.flatMap utf8.encode
  printable : ∀ byte ∈ text, 0x20 ≤ byte.toNat
  noLessThan : ascii '<' ∉ text
  escaped : quotesEscaped false text = true
  closed : text.foldl oddBackslashes false = false

theorem Piece.nil : Piece [] where
  characters := ⟨[], nofun, rfl⟩
  printable := nofun
  noLessThan := nofun
  escaped := rfl
  closed := rfl

theorem Piece.append {first second : List Byte} (left : Piece first) (right : Piece second) :
    Piece (first ++ second) where
  characters := by
    obtain ⟨before, validBefore, rfl⟩ := left.characters
    obtain ⟨after, validAfter, rfl⟩ := right.characters
    refine ⟨before ++ after, ?_, List.flatMap_append.symm⟩
    intro c member
    exact (List.mem_append.mp member).elim (validBefore c) (validAfter c)
  printable byte member := (List.mem_append.mp member).elim (left.printable byte) (right.printable byte)
  noLessThan member := (List.mem_append.mp member).elim left.noLessThan right.noLessThan
  escaped := by rw [quotesEscaped_append, left.escaped, left.closed, right.escaped, Bool.and_self]
  closed := by rw [List.foldl_append, left.closed, right.closed]

theorem Piece.flatMap {write : Nat → List Byte} {text : List Nat} (pieces : ∀ c ∈ text, Piece (write c)) :
    Piece (text.flatMap write) := by
  induction text with
  | nil => exact Piece.nil
  | cons c rest ih =>
    rw [List.flatMap_cons]
    exact (pieces c List.mem_cons_self).append (ih fun other member => pieces other (List.mem_cons_of_mem c member))

/-- An escape sequence is of ASCII characters. -/
theorem Piece.of_ascii {text : List Byte}
    (printable : ∀ byte ∈ text, 0x20 ≤ byte.toNat ∧ byte.toNat < 0x80 ∧ byte ≠ ascii '<')
    (escaped : quotesEscaped false text = true) (closed : text.foldl oddBackslashes false = false) : Piece text where
  characters := by
    have isASCII : isStringASCII text = true := (isStringASCII_iff text).mpr fun byte member => (printable byte member).2.1
    refine ⟨text.map BitVec.toNat, ?_, (utf8Codec.flatMap_encode_ascii isASCII).symm⟩
    intro c member
    obtain ⟨byte, inside, rfl⟩ := List.mem_map.mp member
    have small := (printable byte inside).2.1
    exact ⟨isValidChar_of_ascii small, by omega, by omega⟩
  printable byte member := (printable byte member).1
  noLessThan member := (printable _ member).2.2 rfl
  escaped := escaped
  closed := closed

theorem quotesEscaped_plain {text : List Byte} (odd : Bool) (noQuote : ascii '"' ∉ text) (noBackslash : ascii '\\' ∉ text) :
    quotesEscaped odd text = true ∧ (text ≠ [] → text.foldl oddBackslashes odd = false) := by
  induction text generalizing odd with
  | nil => exact ⟨rfl, fun some => absurd rfl some⟩
  | cons byte rest ih =>
    rw [List.mem_cons, not_or] at noQuote noBackslash
    have even : oddBackslashes odd byte = false := by
      rw [oddBackslashes, decide_eq_false (Ne.symm noBackslash.1), Bool.false_and]
    obtain ⟨escaped, closed⟩ := ih false noQuote.2 noBackslash.2
    rw [quotesEscaped, List.foldl_cons, even, escaped, Bool.and_true, Bool.or_eq_true, bne_iff_ne]
    refine ⟨.inl (Ne.symm noQuote.1), fun _ => ?_⟩
    cases rest with
    | nil => rfl
    | cons next others => exact closed (List.cons_ne_nil next others)

theorem Piece.of_character {c : Nat} (valid : c.isValidChar) (printable : 0x20 ≤ c)
    (plain : c ≠ 0x22 ∧ c ≠ 0x3c ∧ c ≠ 0x5c ∧ c ≠ 0x2028 ∧ c ≠ 0x2029) : Piece (utf8.encode c) := by
  have absent {byte : Byte} (small : byte.toNat < 0x80) (other : c ≠ byte.toNat) : byte ∉ utf8.encode c :=
    fun member => other (eq_of_mem_utf8 valid member small)
  have quotes := @quotesEscaped_plain (utf8.encode c) false (absent (by decide) plain.1)
    (absent (by decide) plain.2.2.1)
  constructor
  case characters => exact ⟨[c], by simp [valid, plain], (List.flatMap_singleton utf8.encode c).symm⟩
  case printable =>
    intro byte member
    by_contra control
    have := eq_of_mem_utf8 valid member (by omega)
    omega
  case noLessThan => exact absent (by decide) plain.2.1
  case escaped => exact quotes.1
  case closed => exact quotes.2 (utf8.encode_ne_nil c valid)

theorem Piece.of_hexDigit {digit : Nat} (small : digit < 16) : Piece [hexDigit digit] := by
  have plain : ∀ d < 16, 0x20 ≤ (hexDigit d).toNat ∧ (hexDigit d).toNat < 0x80 ∧ hexDigit d ≠ ascii '<' ∧
      ascii '"' ≠ hexDigit d ∧ ascii '\\' ≠ hexDigit d := by decide
  obtain ⟨printable, isASCII, noLessThan, noQuote, noBackslash⟩ := plain digit small
  have quotes := @quotesEscaped_plain [hexDigit digit] false (fun member => noQuote (List.mem_singleton.mp member))
    (fun member => noBackslash (List.mem_singleton.mp member))
  refine .of_ascii (fun byte member => ?_) quotes.1 (quotes.2 (List.cons_ne_nil _ _))
  rw [List.mem_singleton.mp member]
  exact ⟨printable, isASCII, noLessThan⟩

theorem Piece.of_u16Escape {c : Nat} (control : c < 32) : Piece (u16Escape c) := by
  have start : Piece [ascii '\\', ascii 'u'] := .of_ascii (by decide) (by decide) (by decide)
  have first : Piece [hexDigit (c / 0x1000)] := .of_hexDigit (by omega)
  have second : Piece [hexDigit (c / 0x100 % 0x10)] := .of_hexDigit (by omega)
  have third : Piece [hexDigit (c / 0x10 % 0x10)] := .of_hexDigit (by omega)
  have fourth : Piece [hexDigit (c % 0x10)] := .of_hexDigit (by omega)
  exact (((start.append first).append second).append third).append fourth

theorem Piece.of_ite {special : Prop} [Decidable special] {escaped : List Byte} {others : Option (List Byte)}
    (here : Piece escaped) (elsewhere : ∀ text ∈ others, Piece text) :
    ∀ text ∈ (if special then some escaped else others), Piece text := by
  intro text member
  by_cases isSpecial : special
  · rw [if_pos isSpecial, Option.mem_some_iff] at member
    exact member ▸ here
  · rw [if_neg isSpecial] at member
    exact elsewhere text member

theorem Piece.of_special (c : Nat) : ∀ text ∈ escapeSpecialCodePoint c, Piece text := by
  rw [escapeSpecialCodePoint]
  iterate 10 apply Piece.of_ite (.of_ascii (by decide) (by decide) (by decide))
  exact nofun

theorem not_special {c : Nat} (special : escapeSpecialCodePoint c = none) :
    c ≠ 0x22 ∧ c ≠ 0x3c ∧ c ≠ 0x5c ∧ c ≠ 0x2028 ∧ c ≠ 0x2029 := by
  refine ⟨?_, ?_, ?_, ?_, ?_⟩
  all_goals
    rintro rfl
    cases special

theorem Piece.of_codePoint {c : Nat} (valid : c.isValidChar) : Piece (escapeCodePoint c) := by
  rw [escapeCodePoint]
  split
  next escaped special => exact .of_special c escaped special
  next special =>
    split
    next control => exact .of_u16Escape control
    next printable =>
      rw [writeUnicodeCharacter_eq valid]
      exact .of_character valid (Nat.le_of_not_lt printable) (not_special special)

/-! ### What `EscapeJSONString` writes -/

/-- Text that is safe between the quotes of a JSON string, inside a script as well. -/
structure SafeToEmbed (text : List Byte) : Prop where
  characters : ∃ codePoints : List Nat, (∀ c ∈ codePoints, c.isValidChar ∧ c ≠ 0x2028 ∧ c ≠ 0x2029) ∧
    text = codePoints.flatMap utf8.encode
  printable : ∀ byte ∈ text, 0x20 ≤ byte.toNat
  noLessThan : ascii '<' ∉ text
  quotes : ∀ before after, text = before ++ ascii '"' :: after → trailingBackslashes before % 2 = 1

theorem Piece.safeToEmbed {text : List Byte} (piece : Piece text) : SafeToEmbed text where
  characters := piece.characters
  printable := piece.printable
  noLessThan := piece.noLessThan
  quotes := by
    rintro before after rfl
    have escaped := piece.escaped
    rw [quotesEscaped_append, Bool.and_eq_true, quotesEscaped, Bool.and_eq_true] at escaped
    have odd := escaped.2.1
    rw [bne_self_eq_false, Bool.false_or] at odd
    exact (foldl_oddBackslashes before).mp odd

/-- The text between the quotes, and what is returned, for a string of the form. -/
structure EscapedAs {w : Nat} (form : Form Nat (BitVec w)) (str : List (BitVec w)) (text : List Byte) (success : Bool) :
    Prop where
  safe : SafeToEmbed text
  success : success = true ↔ form.WellFormed str
  verbatim : ∀ codePoints : List Nat, (∀ c ∈ codePoints, c.isValidChar) → str = codePoints.flatMap form.encode →
    text = codePoints.flatMap escapeCodePoint

theorem escaped_scan {w : Nat} {form : Form Nat (BitVec w)} {read : (Nat → BitVec w) → Nat → Nat → Option Nat × Nat}
    (reads : Reads form read) (validChar : ∀ c, form.valid c ↔ c.isValidChar) (str : List (BitVec w)) {text : List Byte}
    {success : Bool} (scanned : scan (read (fun i => str.getD i 0) str.length) escapeCodePoint kReplacementCodePoint
      str.length str.length 0 = (text, success)) : EscapedAs form str text success := by
  have held := window_getD str 0 (Nat.le_refl str.length)
  rw [List.take_length] at held
  have whole {codePoints : List Nat} (valid : ∀ c ∈ codePoints, form.valid c)
      (same : str = codePoints.flatMap form.encode) : (text, success) = (codePoints.flatMap escapeCodePoint, true) :=
    scanned.symm.trans (scan_flatMap reads _ _ valid (Nat.le_refl _) (Nat.zero_le _) (held.trans same))
  constructor
  case safe =>
    obtain ⟨codePoints, valid, written⟩ := scan_writes reads escapeCodePoint kReplacementCodePoint
      ((validChar _).mpr isValidChar_replacement) str.length 0
    rw [scanned] at written
    rw [show text = codePoints.flatMap escapeCodePoint from written]
    exact (Piece.flatMap fun c member => Piece.of_codePoint ((validChar c).mp (valid c member))).safeToEmbed
  case success =>
    constructor
    · rintro rfl
      have wellFormed := wellFormed_of_scan reads escapeCodePoint kReplacementCodePoint (Nat.le_refl _) (Nat.zero_le _)
        (congrArg Prod.snd scanned)
      exact held ▸ wellFormed
    · rintro ⟨codePoints, valid, same⟩
      exact congrArg Prod.snd (whole valid same)
  case verbatim =>
    intro codePoints valid same
    exact congrArg Prod.fst (whole (fun c member => (validChar c).mpr (valid c member)) same)

/-- What `EscapeJSONString` does with a string: it fails its check, or it escapes the string. -/
def Escapes {w : Nat} (form : Form Nat (BitVec w)) (escape : List (BitVec w) → Bool → Option (List Byte × Bool))
    (str : List (BitVec w)) (putInQuotes : Bool) : Prop :=
  match escape str putInQuotes with
  | none => int32Max < str.length
  | some (dest, success) => ∃ text, EscapedAs form str text success ∧
    dest = if putInQuotes then [ascii '"'] ++ text ++ [ascii '"'] else text

theorem escapes_impl {w : Nat} {form : Form Nat (BitVec w)} {read : (Nat → BitVec w) → Nat → Nat → Option Nat × Nat}
    (reads : Reads form read) (validChar : ∀ c, form.valid c ↔ c.isValidChar) (str : List (BitVec w))
    (putInQuotes : Bool) : Escapes form (escapeJSONStringImpl read) str putInQuotes := by
  rw [Escapes, escapeJSONStringImpl]
  by_cases short : str.length ≤ int32Max
  · rw [if_pos short]
    refine ⟨_, escaped_scan reads validChar str rfl, ?_⟩
    cases putInQuotes
    · exact List.append_nil _
    · rfl
  · rw [if_neg short]
    exact Nat.lt_of_not_le short

end Libchrome.Base.Json
