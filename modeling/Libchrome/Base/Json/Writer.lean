import Libchrome.Base.NumberConversions
import Libchrome.Base.Utf8
import Libchrome.Base.Json.Value

/-! `EscapeJSONString` (`string_escape.cc`) and `JSONWriter` (`json_writer.cc`). -/

namespace Libchrome.Base.Json
open Library.Bytes NumberConversions Utf8

/-! ### Escaping -/

def hexDigit (digit : Nat) : Byte := BitVec.ofNat 8 (if digit < 10 then digit + 0x30 else digit + 0x37)

/-- `kU16EscapeFormat` of a number of at most four digits. -/
def u16Escape (c : Nat) : List Byte :=
  [ascii '\\', ascii 'u', hexDigit (c / 0x1000), hexDigit (c / 0x100 % 0x10), hexDigit (c / 0x10 % 0x10),
    hexDigit (c % 0x10)]

def kReplacementCodePoint : Nat := 0xfffd

/-- `EscapeSpecialCodePoint`. -/
def escapeSpecialCodePoint (codePoint : Nat) : Option (List Byte) :=
  if codePoint = 0x08 then some [ascii '\\', ascii 'b']
  else if codePoint = 0x0c then some [ascii '\\', ascii 'f']
  else if codePoint = 0x0a then some [ascii '\\', ascii 'n']
  else if codePoint = 0x0d then some [ascii '\\', ascii 'r']
  else if codePoint = 0x09 then some [ascii '\\', ascii 't']
  else if codePoint = 0x5c then some [ascii '\\', ascii '\\']
  else if codePoint = 0x22 then some [ascii '\\', ascii '"']
  else if codePoint = 0x3c then some (['\\', 'u', '0', '0', '3', 'C'].map ascii)
  else if codePoint = 0x2028 then some (['\\', 'u', '2', '0', '2', '8'].map ascii)
  else if codePoint = 0x2029 then some (['\\', 'u', '2', '0', '2', '9'].map ascii)
  else none

/-- `WriteUnicodeCharacter`. -/
def writeUnicodeCharacter (codePoint : Nat) : List Byte :=
  if codePoint ≤ 0x7f then [BitVec.ofNat 8 codePoint] else cbu8Append codePoint

/-- `ReadUnicodeCharacter`, with the index behind the character. -/
def readUnicodeCharacter (src : Nat → Byte) (srcLen charIndex : Nat) : Option Nat × Nat :=
  let (codePoint, next) := cbu8Next src charIndex srcLen
  (if 0 ≤ codePoint ∧ isValidCodepoint codePoint.toNat then some codePoint.toNat else none, next)

/-- What `EscapeJSONStringImpl` writes for a code point. -/
def escapeCodePoint (codePoint : Nat) : List Byte :=
  match escapeSpecialCodePoint codePoint with
  | some escaped => escaped
  | none => if codePoint < 32 then u16Escape codePoint else writeUnicodeCharacter codePoint

end Libchrome.Base.Json
