import Libchrome.Base.Json.Parser

/-! What the parser reads from the text alone: each function takes the bytes ahead and gives what it makes of them, the
bytes behind, and how often it let pass what is not JSON. -/

namespace Libchrome.Base.Json
open Library.Bytes NumberConversions Utf8

/-- What is read from the front of some bytes, with its slips, and what is left. -/
structure Read (α : Type) where
  value : α
  slips : Nat
  rest : List Byte

def Read.map {α β : Type} (f : α → β) (read : Read α) : Read β := ⟨f read.value, read.slips, read.rest⟩

/-- The token that the bytes ahead begin. -/
def tokenAt : List Byte → Token
  | [] => .endOfInput
  | c :: _ => tokenOf c

/-! ### Whitespace and comments -/

/-- Where whitespace and comments have got to; within a block comment, whether the last character was a star. -/
inductive Blank where
  | between | slash | line | block (star : Bool)

/-- Past whitespace and comments. A slash alone is a slip, and so is a block comment without an end. -/
def skipFrom : Blank → List Byte → Read Unit
  | .between, [] => ⟨(), 0, []⟩
  | .between, c :: rest =>
    if isNewline c ∨ c = ascii ' ' ∨ c = ascii '\t' then skipFrom .between rest
    else if c = ascii '/' then skipFrom .slash rest
    else ⟨(), 0, c :: rest⟩
  | .slash, [] => ⟨(), 1, []⟩
  | .slash, c :: rest =>
    if c = ascii '/' then skipFrom .line rest
    else if c = ascii '*' then skipFrom (.block false) rest
    else ⟨(), 1, c :: rest⟩
  | .line, [] => ⟨(), 0, []⟩
  | .line, c :: rest => if isNewline c then skipFrom .between rest else skipFrom .line rest
  | .block _, [] => ⟨(), 1, []⟩
  | .block star, c :: rest =>
    if star ∧ c = ascii '/' then skipFrom .between rest else skipFrom (.block (c = ascii '*')) rest

def skip (bytes : List Byte) : Read Unit := skipFrom .between bytes

/-! ### Strings -/

def isHexDigit (c : Byte) : Bool := (charToDigit 16 c).isSome

/-- A number in so many characters; other ones than digits are a slip. -/
def readHex (count : Nat) (bytes : List Byte) : Option (Read Int) :=
  if count ≤ bytes.length then
    (hexStringToInt (bytes.take count)).map fun value =>
      ⟨value, if (bytes.take count).all isHexDigit then 0 else 1, bytes.drop count⟩
  else none

/-- The character of `\x`, in one byte where one is enough. -/
def hexCharacter (value : Int) : List Byte :=
  if value < kExtendedASCIIStart then [BitVec.ofInt 8 value] else cbu8Append value.toNat

/-- The second unit of a pair. -/
def readLow (high : Int) : List Byte → Option (Read (List Byte))
  | backslash :: letter :: rest =>
    if backslash = ascii '\\' ∧ letter = ascii 'u' then
      match readHex 4 rest with
      | none => none
      | some low =>
        if isTrail16 low.value ∧ isValidCharacter (getSupplementary high low.value) then
          some ⟨codeUnit8 (getSupplementary high low.value), low.slips, low.rest⟩
        else none
    else none
  | _ => none

/-- The units of `\u`. -/
def readUtf16 (bytes : List Byte) : Option (Read (List Byte)) :=
  match readHex 4 bytes with
  | none => none
  | some high =>
    if isSurrogate16 high.value then
      if isSurrogateLead high.value then
        (readLow high.value high.rest).map fun units => ⟨units.value, high.slips + units.slips, units.rest⟩
      else none
    else if isValidCharacter high.value then some ⟨codeUnit8 high.value, high.slips, high.rest⟩
    else none

/-- What follows a backslash. -/
def readEscape : List Byte → Option (Read (List Byte))
  | [] => none
  | c :: rest =>
    if c = ascii 'x' then (readHex 2 rest).map (Read.map hexCharacter)
    else if c = ascii 'u' then readUtf16 rest
    else (simpleEscape c).map fun byte => ⟨[byte], 0, rest⟩

/-- A character of a string or an escape; a control character as it is is a slip. -/
def readCharacter (bytes : List Byte) : Option (Read (List Byte)) :=
  match decodeFirst bytes with
  | none => none
  | some (c, rest) =>
    if c = 0x5c then readEscape rest else some ⟨cbu8Append c, if c < 0x20 then 1 else 0, rest⟩

/-- How a string ends: with a quote, with the text, or with what cannot stand in one. -/
inductive StringEnd where
  | closed (read : Read (List Byte))
  | runsOut
  | malformed

def StringEnd.prepend (front : Read (List Byte)) : StringEnd → StringEnd
  | closed read => closed ⟨front.value ++ read.value, front.slips + read.slips, read.rest⟩
  | runsOut => runsOut
  | malformed => malformed

/-- A string behind its first quote; a character takes a byte at least. -/
def readStringFrom : Nat → List Byte → StringEnd
  | _, [] => .runsOut
  | 0, _ :: _ => .malformed
  | fuel + 1, c :: rest =>
    if c = ascii '"' then .closed ⟨[], 0, rest⟩
    else
      match readCharacter (c :: rest) with
      | none => .malformed
      | some front => (readStringFrom fuel front.rest).prepend front

/-- A string from its first quote on. -/
def readQuoted : List Byte → StringEnd
  | [] => .malformed
  | _ :: rest => readStringFrom rest.length rest

def readString (bytes : List Byte) : Option (Read (List Byte)) :=
  match readQuoted bytes with
  | .closed read => some read
  | _ => none

/-! ### Numbers and literals -/

/-- Past an integer. -/
def pastInt (allowLeadingZeros : Bool) (bytes : List Byte) : Option (List Byte) :=
  let digits := bytes.takeWhile isAsciiDigit
  if digits.length ≠ 0 ∧ (allowLeadingZeros ∨ ¬ (1 < digits.length ∧ digits.head? = some (ascii '0'))) then
    some (bytes.dropWhile isAsciiDigit)
  else none

def pastMinus (bytes : List Byte) : List Byte := if bytes.head? = some (ascii '-') then bytes.tail else bytes

def pastFraction (bytes : List Byte) : Option (List Byte) :=
  if bytes.head? = some (ascii '.') then pastInt true bytes.tail else some bytes

def pastSign (bytes : List Byte) : List Byte :=
  if bytes.head? = some (ascii '-') ∨ bytes.head? = some (ascii '+') then bytes.tail else bytes

def pastExponent (bytes : List Byte) : Option (List Byte) :=
  if bytes.head? = some (ascii 'e') ∨ bytes.head? = some (ascii 'E') then pastInt true (pastSign bytes.tail) else some bytes

/-- Past a number. -/
def pastNumber (bytes : List Byte) : Option (List Byte) :=
  (pastInt false (pastMinus bytes)).bind fun rest => (pastFraction rest).bind pastExponent

section

variable {D : Type}

def readNumber (doubles : Doubles D) (bytes : List Byte) : Option (Read (Value D)) :=
  match pastNumber bytes with
  | none => none
  | some rest =>
    if endsNumber (tokenAt (skip rest).rest) then
      (numberValue doubles (bytes.take (bytes.length - rest.length))).map fun value => ⟨value, 0, rest⟩
    else none

def readWord (word : List Byte) (value : Value D) (bytes : List Byte) : Option (Read (Value D)) :=
  if bytes.take word.length = word then some ⟨value, 0, bytes.drop word.length⟩ else none

/-- The literal that a token begins. -/
def wordOf : Token → List Byte
  | .boolTrue => kTrueLiteral
  | .boolFalse => kFalseLiteral
  | _ => kNullLiteral

def literalOf : Token → Value D
  | .boolTrue => .boolean true
  | .boolFalse => .boolean false
  | _ => .null

/-- A value that is no container. -/
def readScalar (doubles : Doubles D) (bytes : List Byte) : Option (Read (Value D)) :=
  match tokenAt bytes with
  | .string => (readString bytes).map (Read.map .string)
  | .number => readNumber doubles bytes
  | .boolTrue | .boolFalse | .null => readWord (wordOf (tokenAt bytes)) (literalOf (tokenAt bytes)) bytes
  | _ => none

/-! ### Lists, dictionaries and documents -/

/-- What stands behind an element, up to the next one or the end of the container. -/
def readSeparator (allowTrailingCommas : Bool) (close : Token) (bytes : List Byte) : Option (Read Unit) :=
  let gap := skip bytes
  if tokenAt gap.rest = .listSeparator then
    let next := skip gap.rest.tail
    if tokenAt next.rest = close ∧ ¬ allowTrailingCommas then none else some ⟨(), gap.slips + next.slips, next.rest⟩
  else if tokenAt gap.rest = close then some gap
  else none

/-- Elements up to `close`; an element takes a byte at least. -/
def readElements {α : Type} (allowTrailingCommas : Bool) (close : Token) (readOne : List Byte → Option (Read α)) :
    Nat → List Byte → Option (Read (List α))
  | 0, _ => none
  | fuel + 1, bytes =>
    if tokenAt bytes = close then some ⟨[], 0, bytes.tail⟩
    else
      match readOne bytes with
      | none => none
      | some one =>
        match readSeparator allowTrailingCommas close one.rest with
        | none => none
        | some gap =>
          (readElements allowTrailingCommas close readOne fuel gap.rest).map fun others =>
            ⟨one.value :: others.value, one.slips + gap.slips + others.slips, others.rest⟩

/-- A container from its opening character on. -/
def readContainer {α : Type} (allowTrailingCommas : Bool) (close : Token) (readOne : List Byte → Option (Read α))
    (bytes : List Byte) : Option (Read (List α)) :=
  let gap := skip bytes.tail
  (readElements allowTrailingCommas close readOne bytes.length gap.rest).map fun elements =>
    ⟨elements.value, gap.slips + elements.slips, elements.rest⟩

/-- A key, the separator and the value of the key. -/
def readEntry (readValue : List Byte → Option (Read (Value D))) (bytes : List Byte) :
    Option (Read (List Byte × Value D)) :=
  if tokenAt bytes ≠ .string then none
  else
    match readString bytes with
    | none => none
    | some key =>
      let gap := skip key.rest
      if tokenAt gap.rest ≠ .objectPairSeparator then none
      else
        let next := skip gap.rest.tail
        (readValue next.rest).map fun value =>
          ⟨(key.value, value.value), key.slips + gap.slips + next.slips + value.slips, value.rest⟩

/-- The entries of a dictionary, set one after the other. -/
def setAll (entries : List (List Byte × Value D)) : List (List Byte × Value D) :=
  entries.foldl (fun dict entry => setWithoutPathExpansion dict entry.1 entry.2) []

/-- A value with so many containers in each other at most. -/
def readValue (doubles : Doubles D) (allowTrailingCommas : Bool) : Nat → List Byte → Option (Read (Value D))
  | 0, bytes => readScalar doubles bytes
  | levels + 1, bytes =>
    match tokenAt bytes with
    | .objectBegin =>
      (readContainer allowTrailingCommas .objectEnd (readEntry (readValue doubles allowTrailingCommas levels)) bytes).map
        (Read.map fun entries => .dictionary (setAll entries))
    | .arrayBegin =>
      (readContainer allowTrailingCommas .arrayEnd (readValue doubles allowTrailingCommas levels) bytes).map
        (Read.map .list)
    | _ => readScalar doubles bytes

def byteOrderMark : List Byte := [0xef, 0xbb, 0xbf]

def pastByteOrderMark (bytes : List Byte) : List Byte := if bytes.take 3 = byteOrderMark then bytes.drop 3 else bytes

/-- The root of a document, with nothing but whitespace and comments around it. -/
def readDocument (doubles : Doubles D) (allowTrailingCommas : Bool) (levels : Nat) (text : List Byte) :
    Option (Read (Value D)) :=
  let front := skip (pastByteOrderMark text)
  match readValue doubles allowTrailingCommas levels front.rest with
  | none => none
  | some root =>
    let back := skip root.rest
    if back.rest = [] then some ⟨root.value, front.slips + root.slips + back.slips, []⟩ else none

end

/-!
## Where a reading comes by

The places of a text, in order, at which a reading skips whitespace and comments or takes up a string or a number, up to the
first thing that it cannot read.
-/

/-- A place, with the bytes ahead of it. -/
inductive Site where
  | gap (bytes : List Byte)
  | string (bytes : List Byte)
  | number (bytes : List Byte)

def scalarSites (bytes : List Byte) : List Site :=
  match tokenAt bytes with
  | .string => [.string bytes]
  | .number => [.number bytes]
  | _ => []

def separatorSites (bytes : List Byte) : List Site :=
  .gap bytes :: if tokenAt (skip bytes).rest = .listSeparator then [.gap (skip bytes).rest.tail] else []

/-- Of the elements of a container, from the first on. -/
def elementsSites {α : Type} (allowTrailingCommas : Bool) (close : Token) (readOne : List Byte → Option (Read α))
    (oneSites : List Byte → List Site) : Nat → List Byte → List Site
  | 0, _ => []
  | fuel + 1, bytes =>
    if tokenAt bytes = close then []
    else
      oneSites bytes ++
        match readOne bytes with
        | none => []
        | some one =>
          separatorSites one.rest ++
            match readSeparator allowTrailingCommas close one.rest with
            | none => []
            | some gap => elementsSites allowTrailingCommas close readOne oneSites fuel gap.rest

def containerSites {α : Type} (allowTrailingCommas : Bool) (close : Token) (readOne : List Byte → Option (Read α))
    (oneSites : List Byte → List Site) (bytes : List Byte) : List Site :=
  .gap bytes.tail :: elementsSites allowTrailingCommas close readOne oneSites bytes.length (skip bytes.tail).rest

def entrySites (valueSites : List Byte → List Site) (bytes : List Byte) : List Site :=
  if tokenAt bytes ≠ .string then []
  else
    .string bytes ::
      match readString bytes with
      | none => []
      | some key =>
        .gap key.rest ::
          if tokenAt (skip key.rest).rest ≠ .objectPairSeparator then []
          else .gap (skip key.rest).rest.tail :: valueSites (skip (skip key.rest).rest.tail).rest

section

variable {D : Type}

/-- Of a value with so many containers in each other at most. -/
def valueSites (doubles : Doubles D) (allowTrailingCommas : Bool) : Nat → List Byte → List Site
  | 0, bytes => scalarSites bytes
  | levels + 1, bytes =>
    match tokenAt bytes with
    | .objectBegin =>
      containerSites allowTrailingCommas .objectEnd (readEntry (readValue doubles allowTrailingCommas levels))
        (entrySites (valueSites doubles allowTrailingCommas levels)) bytes
    | .arrayBegin =>
      containerSites allowTrailingCommas .arrayEnd (readValue doubles allowTrailingCommas levels)
        (valueSites doubles allowTrailingCommas levels) bytes
    | _ => scalarSites bytes

def documentSites (doubles : Doubles D) (allowTrailingCommas : Bool) (levels : Nat) (text : List Byte) : List Site :=
  let front := skip (pastByteOrderMark text)
  .gap (pastByteOrderMark text) :: valueSites doubles allowTrailingCommas levels front.rest ++
    match readValue doubles allowTrailingCommas levels front.rest with
    | none => []
    | some root => [.gap root.rest]

end

end Libchrome.Base.Json
