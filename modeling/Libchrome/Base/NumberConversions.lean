import Libchrome.Library.Bytes

/-! `string_number_conversions.cc`: text to integer and integer to text. -/

namespace Libchrome.Base.NumberConversions
open Library.Bytes

/-- The byte of an ASCII character. -/
def ascii (c : Char) : Byte := BitVec.ofNat 8 c.toNat

/-- `IteratorRangeToNumberTraits` of a signed type. -/
structure Traits where
  base : Nat
  min : Int
  max : Int

def intTraits (base : Nat) : Traits := ⟨base, -2 ^ 31, 2 ^ 31 - 1⟩

/-- `CharToDigit`. -/
def charToDigit (base : Nat) (c : Byte) : Option Nat :=
  let value := c.toNat
  if base ≤ 10 then if 0x30 ≤ value ∧ value < 0x30 + base then some (value - 0x30) else none
  else if 0x30 ≤ value ∧ value ≤ 0x39 then some (value - 0x30)
  else if 0x61 ≤ value ∧ value < 0x61 + base - 10 then some (value - 0x61 + 10)
  else if 0x41 ≤ value ∧ value < 0x41 + base - 10 then some (value - 0x41 + 10)
  else none

/-- `isspace` in the C locale. -/
def isSpace (c : Byte) : Bool := c = 0x20 || (0x09 ≤ c && c ≤ 0x0d)

/-- The class `Positive`, or `Negative`: whether the next digit fits, and the output with it. -/
structure Sign where
  checkBounds : Int → Nat → Bool
  increment : Nat → Int → Int

def positive (traits : Traits) : Sign where
  checkBounds output newDigit :=
    !(output > traits.max.tdiv traits.base || (output = traits.max.tdiv traits.base && newDigit > traits.max.tmod traits.base))
  increment digit output := output + digit

def negative (traits : Traits) : Sign where
  checkBounds output newDigit :=
    !(output < traits.min.tdiv traits.base || (output = traits.min.tdiv traits.base && newDigit > 0 - traits.min.tmod traits.base))
  increment digit output := output - digit

/-- The loop of `Base::Invoke` behind the first character. -/
def invokeFrom (base : Nat) (sign : Sign) : Int → List Byte → Option Int
  | output, [] => some output
  | output, c :: rest =>
    match charToDigit base c with
    | none => none
    | some newDigit =>
      if sign.checkBounds output newDigit then invokeFrom base sign (sign.increment newDigit (output * base)) rest
      else none

/-- `Base::Invoke`. -/
def invokeSign (base : Nat) (sign : Sign) (input : List Byte) : Option Int :=
  let digits := if base = 16 ∧ 2 < input.length ∧ input[0]? = some (ascii '0') ∧
      (input[1]? = some (ascii 'x') ∨ input[1]? = some (ascii 'X')) then input.drop 2 else input
  match digits with
  | [] => none
  | c :: rest =>
    match charToDigit base c with
    | none => none
    | some newDigit => invokeFrom base sign (sign.increment newDigit 0) rest

/-- `IteratorRangeToNumber::Invoke`; `none` is a conversion that is not valid. -/
def invoke (traits : Traits) (input : List Byte) : Option Int :=
  match input with
  | [] => none
  | c :: rest =>
    if isSpace c then none
    else if c = ascii '-' then invokeSign traits.base (negative traits) rest
    else if c = ascii '+' then invokeSign traits.base (positive traits) rest
    else invokeSign traits.base (positive traits) (c :: rest)

def stringToInt (input : List Byte) : Option Int := invoke (intTraits 10) input

def hexStringToInt (input : List Byte) : Option Int := invoke (intTraits 16) input

/-! ### Digits -/

/-! ### Whole texts -/

end Libchrome.Base.NumberConversions
