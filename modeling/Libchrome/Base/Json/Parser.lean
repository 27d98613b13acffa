import Libchrome.Library.Cursor
import Libchrome.Base.NumberConversions
import Libchrome.Base.Utf8
import Libchrome.Base.Json.Value

/-! `JSONParser` (`json_parser.cc`). Positions count from `start_pos_`; what is read behind `end_pos_` is the memory
that follows the input. -/

namespace Libchrome.Base.Json
open Library.Bytes Library.Cursor NumberConversions Utf8

/-- `JSONParserOptions`. -/
structure Options where
  allowTrailingCommas : Bool
  detachableChildren : Bool

/-- `JSON_PARSE_RFC`. -/
def parseRfc : Options := ⟨false, false⟩

/-- `JSONReader::JsonParseError`. -/
inductive JsonParseError where
  | noError | invalidEscape | syntaxError | unexpectedToken | trailingComma | tooMuchNesting | unexpectedDataAfterRoot
  | unsupportedEncoding | unquotedDictionaryKey
  deriving DecidableEq

/-- `JSONParser::Token`. -/
inductive Token where
  | objectBegin | objectEnd | arrayBegin | arrayEnd | string | number | boolTrue | boolFalse | null | listSeparator
  | objectPairSeparator | endOfInput | invalidToken
  deriving DecidableEq

structure State where
  pos : Nat
  index : Nat
  stackDepth : Nat
  lineNumber : Nat
  indexLastLine : Nat
  errorCode : JsonParseError
  errorLine : Nat
  errorColumn : Int
  deriving DecidableEq

/-- What stays the same while a parser parses. -/
structure Parser (D : Type) where
  doubles : Doubles D
  options : Options
  source : Buffer Byte

/-- How a function that makes a value ends: with one, with `NULL`, or not at all. -/
inductive Outcome (α : Type) where
  | value (result : α) (s : State)
  | null (s : State)
  | unfinished

namespace Outcome

variable {α β : Type}

/-- What goes on with a value that is not `NULL`. -/
def bind : Outcome α → (α → State → Outcome β) → Outcome β
  | value result s, next => next result s
  | null s, _ => null s
  | unfinished, _ => unfinished

/-- `~StackMarker`. -/
def leave : Outcome α → Outcome α
  | value result s => value result { s with stackDepth := s.stackDepth - 1 }
  | null s => null { s with stackDepth := s.stackDepth - 1 }
  | unfinished => unfinished

end Outcome

def kStackMaxDepth : Nat := 100

def kExtendedASCIIStart : Int := 0x80

def isNewline (c : Byte) : Bool := c = ascii '\n' || c = ascii '\r'

def isAsciiDigit (c : Byte) : Bool := ascii '0' ≤ c && c ≤ ascii '9'

def nextNChars (n : Nat) (s : State) : State := { s with pos := s.pos + n, index := s.index + n }

def nextChar (s : State) : State := nextNChars 1 s

def reportError (code : JsonParseError) (columnAdjust : Int) (s : State) : State :=
  { s with errorCode := code, errorLine := s.lineNumber, errorColumn := (s.index : Int) - s.indexLastLine + columnAdjust }

/-- The switch of `GetNextToken`. -/
def tokenOf (c : Byte) : Token :=
  if c = ascii '{' then .objectBegin
  else if c = ascii '}' then .objectEnd
  else if c = ascii '[' then .arrayBegin
  else if c = ascii ']' then .arrayEnd
  else if c = ascii '"' then .string
  else if isAsciiDigit c ∨ c = ascii '-' then .number
  else if c = ascii 't' then .boolTrue
  else if c = ascii 'f' then .boolFalse
  else if c = ascii 'n' then .null
  else if c = ascii ',' then .listSeparator
  else if c = ascii ':' then .objectPairSeparator
  else .invalidToken

/-! ### `StringBuilder` -/

/-- The bytes at `pos` in the input, or a copy once there is one. -/
structure StringBuilder where
  pos : Nat
  length : Nat
  string : Option (List Byte)
  deriving DecidableEq

namespace StringBuilder

def append (c : Byte) (builder : StringBuilder) : StringBuilder :=
  match builder.string with
  | some string => { builder with string := some (string ++ [c]) }
  | none => { builder with length := builder.length + 1 }

def appendString (str : List Byte) (builder : StringBuilder) : StringBuilder :=
  { builder with string := builder.string.map fun string => string ++ str }

def convert (source : Buffer Byte) (builder : StringBuilder) : StringBuilder :=
  match builder.string with
  | some _ => builder
  | none => { builder with string := some (slice source.read builder.pos builder.length) }

def canBeStringPiece (builder : StringBuilder) : Bool := builder.string.isNone

def asStringPiece (source : Buffer Byte) (builder : StringBuilder) : List Byte :=
  match builder.string with
  | some _ => []
  | none => slice source.read builder.pos builder.length

def asString (source : Buffer Byte) (builder : StringBuilder) : List Byte :=
  (builder.convert source).string.getD []

end StringBuilder

/-- `DecodeUTF8`. -/
def decodeUTF8 (source : Buffer Byte) (point : Int) (dest : StringBuilder) : StringBuilder :=
  if point < kExtendedASCIIStart then dest.append (BitVec.ofInt 8 point)
  else (dest.convert source).appendString (cbu8Append point.toNat)

section Surrogates

/-- `CBU16_IS_SURROGATE`. -/
def isSurrogate16 (c : Int) : Bool := 0xd800 ≤ c && c < 0xe000

/-- `CBU16_IS_SURROGATE_LEAD`, of a surrogate. -/
def isSurrogateLead (c : Int) : Bool := c < 0xdc00

/-- `CBU16_IS_TRAIL`. -/
def isTrail16 (c : Int) : Bool := 0xdc00 ≤ c && c < 0xe000

/-- `CBU16_GET_SUPPLEMENTARY`. -/
def getSupplementary (lead trail : Int) : Int := (lead - 0xd800) * 0x400 + (trail - 0xdc00) + 0x10000

/-- The encoding of a character, as a string that ends at its first zero. -/
def codeUnit8 (c : Int) : List Byte := (cbu8Append c.toNat).takeWhile fun byte => byte ≠ 0

end Surrogates

section

variable {D : Type} (p : Parser D)

def canConsume (length : Nat) (s : State) : Bool := s.pos + length ≤ p.source.text.length

/-- `*pos_`. -/
abbrev current (s : State) : Byte := p.source.read s.pos

/-! ### Whitespace and comments -/

/-- The loop over a single line comment. -/
def lineComment : Nat → State → Bool × State
  | 0, s => (false, s)
  | fuel + 1, s =>
    if canConsume p 1 s then
      let s := nextChar s
      if isNewline (current p s) then (true, s) else lineComment fuel s
    else (false, s)

/-- The loop over a block comment. -/
def blockComment : Nat → Byte → State → Bool × State
  | 0, _, s => (false, s)
  | fuel + 1, previousChar, s =>
    if canConsume p 1 s then
      let s := nextChar s
      let c := current p s
      if previousChar = ascii '*' ∧ c = ascii '/' then (true, nextChar s) else blockComment fuel c s
    else (false, s)

/-- `EatComment`; a loop takes a character a round. -/
def eatComment (s : State) : Bool × State :=
  if current p s ≠ ascii '/' ∨ ¬ canConsume p 1 s then (false, s)
  else
    let s := nextChar s
    if current p s = ascii '/' then lineComment p (p.source.text.length - s.pos) s
    else if current p s = ascii '*' then blockComment p (p.source.text.length - s.pos) 0 s
    else (false, s)

/-- The new line that whitespace may begin. -/
def countLine (s : State) : State :=
  { s with
    indexLastLine := s.index
    lineNumber :=
      if current p s = ascii '\n' ∧ 0 < s.pos ∧ p.source.read (s.pos - 1) = ascii '\r' then s.lineNumber
      else s.lineNumber + 1 }

/-- The loop of `EatWhitespaceAndComments`. -/
def eatFrom : Nat → State → State
  | 0, s => s
  | fuel + 1, s =>
    if s.pos < p.source.text.length then
      let c := current p s
      if isNewline c then eatFrom fuel (nextChar (countLine p s))
      else if c = ascii ' ' ∨ c = ascii '\t' then eatFrom fuel (nextChar s)
      else if c = ascii '/' then
        match eatComment p s with
        | (true, s) => eatFrom fuel s
        | (false, s) => s
      else s
    else s

def eatWhitespaceAndComments (s : State) : State := eatFrom p (p.source.text.length - s.pos) s

def getNextToken (s : State) : Token × State :=
  let s := eatWhitespaceAndComments p s
  if canConsume p 1 s then (tokenOf (current p s), s) else (.endOfInput, s)

/-! ### Strings -/

/-- `HexStringToInt` of the `length` characters at `pos`. -/
def hexAt (pos length : Nat) : Option Int := hexStringToInt (slice p.source.read pos length)

/-- The branch of `DecodeUTF16` for a surrogate. -/
def decodeSurrogates (high : Int) (s : State) : Option (List Byte) × State :=
  if ¬ isSurrogateLead high then (none, s)
  else if ¬ canConsume p 6 s then (none, s)
  else
    let s := nextChar s
    if current p s ≠ ascii '\\' then (none, s)
    else
      let s := nextChar s
      if current p s ≠ ascii 'u' then (none, s)
      else
        let s := nextChar s
        match hexAt p s.pos 4 with
        | none => (none, s)
        | some low =>
          let s := nextNChars 3 s
          if isTrail16 low ∧ isValidCharacter (getSupplementary high low) then
            (some (codeUnit8 (getSupplementary high low)), s)
          else (none, s)

/-- `DecodeUTF16`; what it appends, unless it fails. -/
def decodeUTF16 (s : State) : Option (List Byte) × State :=
  if ¬ canConsume p 4 s then (none, s)
  else
    match hexAt p s.pos 4 with
    | none => (none, s)
    | some high =>
      let s := nextNChars 3 s
      if isSurrogate16 high then decodeSurrogates p high s
      else if isValidCharacter high then (some (codeUnit8 high), s)
      else (none, s)

/-- The escapes of one character. -/
def simpleEscape (c : Byte) : Option Byte :=
  if c = ascii '"' then some (ascii '"')
  else if c = ascii '\\' then some (ascii '\\')
  else if c = ascii '/' then some (ascii '/')
  else if c = ascii 'b' then some 0x08
  else if c = ascii 'f' then some 0x0c
  else if c = ascii 'n' then some 0x0a
  else if c = ascii 'r' then some 0x0d
  else if c = ascii 't' then some 0x09
  else if c = ascii 'v' then some 0x0b
  else none

/-- The case `'x'` of the switch of `ConsumeStringRaw`. -/
def hexEscape (string : StringBuilder) (s : State) : Option StringBuilder × State :=
  if ¬ canConsume p 2 s then (none, reportError .invalidEscape 1 s)
  else
    let s := nextChar s
    match hexAt p s.pos 2 with
    | none => (none, reportError .invalidEscape (-1) s)
    | some hexDigit =>
      let s := nextChar s
      (some (if hexDigit < kExtendedASCIIStart then string.append (BitVec.ofInt 8 hexDigit)
        else decodeUTF8 p.source hexDigit string), s)

/-- The switch of `ConsumeStringRaw` over the character behind a backslash. -/
def consumeEscape (string : StringBuilder) (s : State) : Option StringBuilder × State :=
  let s := nextChar s
  if current p s = ascii 'x' then hexEscape p string s
  else if current p s = ascii 'u' then
    if ¬ canConsume p 5 s then (none, reportError .invalidEscape 0 s)
    else
      match decodeUTF16 p (nextChar s) with
      | (none, s) => (none, reportError .invalidEscape (-1) s)
      | (some utf8Units, s) => (some (string.appendString utf8Units), s)
  else
    match simpleEscape (current p s) with
    | some c => (some (string.append c), s)
    | none => (none, reportError .invalidEscape 0 s)

/-- The loop of `ConsumeStringRaw`. -/
def consumeStringFrom : Nat → StringBuilder → State → Option StringBuilder × State
  | 0, _, s => (none, reportError .syntaxError 0 s)
  | fuel + 1, string, s =>
    if canConsume p 1 s then
      let (c, next) := cbu8Next p.source.read s.index p.source.text.length
      let s := { s with pos := s.index, index := next }
      if c < 0 ∨ ¬ isValidCharacter c then (none, reportError .unsupportedEncoding 1 s)
      else if c = 0x5c then
        let string := string.convert p.source
        if ¬ canConsume p 1 s then (none, reportError .invalidEscape 0 s)
        else
          match consumeEscape p string s with
          | (some string, s) => consumeStringFrom fuel string s
          | (none, s) => (none, s)
      else if c = 0x22 then (some string, { s with index := s.index - 1 })
      else
        consumeStringFrom fuel
          (if c < kExtendedASCIIStart then string.append (BitVec.ofInt 8 c) else decodeUTF8 p.source c string) s
    else (none, reportError .syntaxError 0 s)

/-- `ConsumeStringRaw`; a round but the first moves `pos_`. -/
def consumeStringRaw (s : State) : Option StringBuilder × State :=
  if current p s ≠ ascii '"' then (none, reportError .unexpectedToken 1 s)
  else
    let s := nextChar s
    consumeStringFrom p (p.source.text.length + 1 - s.pos) ⟨s.pos, 0, none⟩ s

def consumeString (s : State) : Outcome (Value D) :=
  match consumeStringRaw p s with
  | (none, s) => .null s
  | (some string, s) =>
    if string.canBeStringPiece ∧ ¬ p.options.detachableChildren then .value (.string (string.asStringPiece p.source)) s
    else .value (.string (string.asString p.source)) s

/-! ### Numbers and literals -/

/-- The loop of `ReadInt`, with the digits read so far and the last character. -/
def readDigits : Nat → Byte → Nat → State → Nat × State
  | 0, _, len, s => (len, s)
  | fuel + 1, c, len, s =>
    if canConsume p 1 s ∧ isAsciiDigit c then
      let s := nextChar s
      readDigits fuel (current p s) (len + 1) s
    else (len, s)

def readInt (allowLeadingZeros : Bool) (s : State) : Bool × State :=
  let first := current p s
  let (len, s) := readDigits p (p.source.text.length - s.pos) first 0 s
  (len ≠ 0 && (allowLeadingZeros || !(1 < len && first = ascii '0')), s)

/-- The optional fraction part. -/
def readFraction (s : State) : Bool × State :=
  if current p s = ascii '.' then if ¬ canConsume p 1 s then (false, s) else readInt p true (nextChar s) else (true, s)

/-- The optional exponent part. -/
def readExponent (s : State) : Bool × State :=
  if current p s = ascii 'e' ∨ current p s = ascii 'E' then
    let s := nextChar s
    readInt p true (if current p s = ascii '-' ∨ current p s = ascii '+' then nextChar s else s)
  else (true, s)

/-- The tokens that may follow a number. -/
def endsNumber (token : Token) : Bool :=
  token = .objectEnd || token = .arrayEnd || token = .listSeparator || token = .endOfInput

/-- The value of the text of a number, unless it is no finite double. -/
def numberValue (doubles : Doubles D) (numString : List Byte) : Option (Value D) :=
  match stringToInt numString with
  | some numInt => some (.integer (Int32.ofInt numInt))
  | none =>
    match doubles.stringToDouble numString with
    | some numDouble => if doubles.isFinite numDouble then some (.double numDouble) else none
    | none => none

/-- `ConsumeNumber`; behind the last part of a number `end_index` is `index_`. -/
def consumeNumber (s : State) : Outcome (Value D) :=
  let numStart := s.pos
  let startIndex := s.index
  let (read, s) := readInt p false (if current p s = ascii '-' then nextChar s else s)
  if ¬ read then .null (reportError .syntaxError 1 s)
  else
    let (read, s) := readFraction p s
    if ¬ read then .null (reportError .syntaxError 1 s)
    else
      let (read, s) := readExponent p s
      if ¬ read then .null (reportError .syntaxError 1 s)
      else
        let endIndex := s.index
        let exitPos := s.pos - 1
        let exitIndex := s.index - 1
        let (token, s) := getNextToken p s
        if ¬ endsNumber token then .null (reportError .syntaxError 1 s)
        else
          let s := { s with pos := exitPos, index := exitIndex }
          match numberValue p.doubles (slice p.source.read numStart (endIndex - startIndex)) with
          | some value => .value value s
          | none => .null s

/-- `StringsAreEqual`, with the text in memory at `one`. -/
def stringsAreEqual (one : Nat) (two : List Byte) : Bool := slice p.source.read one two.length = two

/-- A case of `ConsumeLiteral`. -/
def consumeWord (word : List Byte) (result : Value D) (s : State) : Outcome (Value D) :=
  if ¬ canConsume p (word.length - 1) s ∨ ¬ stringsAreEqual p s.pos word then .null (reportError .syntaxError 1 s)
  else .value result (nextNChars (word.length - 1) s)

def kTrueLiteral : List Byte := ['t', 'r', 'u', 'e'].map ascii

def kFalseLiteral : List Byte := ['f', 'a', 'l', 's', 'e'].map ascii

def kNullLiteral : List Byte := ['n', 'u', 'l', 'l'].map ascii

def consumeLiteral (s : State) : Outcome (Value D) :=
  if current p s = ascii 't' then consumeWord p kTrueLiteral (.boolean true) s
  else if current p s = ascii 'f' then consumeWord p kFalseLiteral (.boolean false) s
  else if current p s = ascii 'n' then consumeWord p kNullLiteral .null s
  else .null (reportError .unexpectedToken 1 s)

/-! ### Lists and dictionaries -/

/-- What stands between two elements, or behind the last: the token behind it. -/
def consumeSeparator (close : Token) (columnAdjust : Int) (s : State) : Outcome Token :=
  let (token, s) := getNextToken p (nextChar s)
  if token = .listSeparator then
    let (token, s) := getNextToken p (nextChar s)
    if token = close ∧ ¬ p.options.allowTrailingCommas then .null (reportError .trailingComma 1 s) else .value token s
  else if token ≠ close then .null (reportError .syntaxError columnAdjust s)
  else .value token s

/-- The loop of `ConsumeDictionary` or `ConsumeList` up to `close`; a round takes a character at least. -/
def consumeElements {α γ : Type} (close : Token) (columnAdjust : Int) (consumeOne : Token → State → Outcome α)
    (add : γ → α → γ) : Nat → Token → γ → State → Outcome γ
  | 0, _, _, _ => .unfinished
  | fuel + 1, token, container, s =>
    if token = close then .value container s
    else
      (consumeOne token s).bind fun element s =>
        (consumeSeparator p close columnAdjust s).bind fun token s =>
          consumeElements close columnAdjust consumeOne add fuel token (add container element) s

/-- What `ConsumeDictionary` and `ConsumeList` share: the opening character, the `StackMarker` and the first token. -/
def consumeContainer (begin : Byte) (loop : Token → State → Outcome (Value D)) (s : State) : Outcome (Value D) :=
  if current p s ≠ begin then .null (reportError .unexpectedToken 1 s)
  else
    let s := { s with stackDepth := s.stackDepth + 1 }
    Outcome.leave <|
      if kStackMaxDepth ≤ s.stackDepth then .null (reportError .tooMuchNesting 1 s)
      else
        let (token, s) := getNextToken p (nextChar s)
        loop token s

section

variable (parseToken : Token → State → Outcome (Value D))

/-- A key, the separator and the value of the key. -/
def consumeEntry (token : Token) (s : State) : Outcome (List Byte × Value D) :=
  if token ≠ .string then .null (reportError .unquotedDictionaryKey 1 s)
  else
    match consumeStringRaw p s with
    | (none, s) => .null s
    | (some key, s) =>
      let (token, s) := getNextToken p (nextChar s)
      if token ≠ .objectPairSeparator then .null (reportError .syntaxError 1 s)
      else
        let (token, s) := getNextToken p (nextChar s)
        (parseToken token s).bind fun value s => .value (key.asString p.source, value) s

def consumeDictionary (s : State) : Outcome (Value D) :=
  consumeContainer p (ascii '{') (fun token s =>
    (consumeElements p .objectEnd 0 (consumeEntry p parseToken)
      (fun dict entry => setWithoutPathExpansion dict entry.1 entry.2) (p.source.text.length + 1) token [] s).bind
    fun dict s => .value (.dictionary dict) s) s

def consumeList (s : State) : Outcome (Value D) :=
  consumeContainer p (ascii '[') (fun token s =>
    (consumeElements p .arrayEnd 1 parseToken (fun list item => list ++ [item]) (p.source.text.length + 1) token [] s).bind
    fun list s => .value (.list list) s) s

end

/-- `ParseToken`, nested so many levels at most. -/
def parseToken : Nat → Token → State → Outcome (Value D)
  | 0, _, _ => .unfinished
  | levels + 1, token, s =>
    match token with
    | .objectBegin => consumeDictionary p (parseToken levels) s
    | .arrayBegin => consumeList p (parseToken levels) s
    | .string => consumeString p s
    | .number => consumeNumber p s
    | .boolTrue | .boolFalse | .null => consumeLiteral p s
    | _ => .null (reportError .unexpectedToken 1 s)

def parseNextToken (levels : Nat) (s : State) : Outcome (Value D) :=
  let (token, s) := getNextToken p s
  parseToken p levels token s

/-- The state in which `Parse` of a new parser begins. -/
def start : State := ⟨0, 0, 0, 1, 0, .noError, 0, 0⟩

/-- Whether the input begins with a byte order mark. -/
def startsWithByteOrderMark (s : State) : Bool :=
  canConsume p 3 s && current p s = 0xef && p.source.read (s.pos + 1) = 0xbb && p.source.read (s.pos + 2) = 0xbf

/-- `Parse`, once the input is copied or not; a level of nesting is a level of the stack. -/
def parseFrom (s : State) : Outcome (Value D) :=
  let s := if startsWithByteOrderMark p s then nextNChars 3 s else s
  (parseNextToken p kStackMaxDepth s).bind fun root s =>
    let (token, s) := getNextToken p s
    if token ≠ .endOfInput then
      if ¬ canConsume p 1 s then .null (reportError .unexpectedDataAfterRoot 1 s)
      else
        let (token, s) := getNextToken p (nextChar s)
        if token ≠ .endOfInput then .null (reportError .unexpectedDataAfterRoot 1 s) else .value root s
    else .value root s

end

/-- A `std::string` with the same text, which ends with a zero. -/
def inputCopy (input : Buffer Byte) : Buffer Byte :=
  ⟨input.text, fun i => if i = 0 then 0 else input.beyond i⟩

/-- `JSONParser::Parse`. -/
def parse {D : Type} (doubles : Doubles D) (options : Options) (input : Buffer Byte) : Outcome (Value D) :=
  parseFrom ⟨doubles, options, if options.detachableChildren then input else inputCopy input⟩ start

/-- The value that `Parse` returns, or none for `NULL`. -/
def Outcome.result {α : Type} : Outcome α → Option α
  | .value result _ => some result
  | _ => none

end Libchrome.Base.Json
