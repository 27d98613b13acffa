import Libchrome.Base.NumberConversions
import Mathlib.Data.Nat.Digits.Defs

/-!
# Numbers in text, in any integer type

`IteratorRangeToNumber` and `IntToStringT` of `string_number_conversions.cc` at every type, base and width of character,
with what a conversion that fails leaves in `*output`.
-/

namespace Libchrome.Base.Strings
open Library.Bytes NumberConversions

/-- `int`, `unsigned`, `int64_t`, `uint64_t` or a `size_t`. -/
structure IntegerType where
  isSigned : Bool
  size : Nat
  size_eq : size = 4 ∨ size = 8

namespace IntegerType

def int32 : IntegerType := ⟨true, 4, .inl rfl⟩
def uint32 : IntegerType := ⟨false, 4, .inl rfl⟩
def int64 : IntegerType := ⟨true, 8, .inr rfl⟩
def uint64 : IntegerType := ⟨false, 8, .inr rfl⟩
def sizeT (wide : Bool) : IntegerType := if wide then uint64 else uint32

/-- `std::numeric_limits<INT>::min()`. -/
def min (type : IntegerType) : Int := if type.isSigned then -2 ^ (8 * type.size - 1) else 0

/-- `std::numeric_limits<INT>::max()`. -/
def max (type : IntegerType) : Int := if type.isSigned then 2 ^ (8 * type.size - 1) - 1 else 2 ^ (8 * type.size) - 1

/-- A value of the type; none is an overflow. -/
def fit (type : IntegerType) (value : Int) : Option Int :=
  if type.min ≤ value ∧ value ≤ type.max then some value else none

def traits (type : IntegerType) (base : Nat) : Traits := ⟨base, type.min, type.max⟩

end IntegerType

/-- `isspace` or `iswspace` in some locale, where no graphic character of ASCII is white space. -/
structure Locale where
  isWhitespace : Nat → Bool
  graphic : ∀ c, 0x21 ≤ c → c < 0x7f → isWhitespace c = false

/-- `CharToDigit` of a character of either width. -/
def charToDigitOf (base c : Nat) : Option Nat :=
  if base ≤ 10 then if 0x30 ≤ c ∧ c < 0x30 + base then some (c - 0x30) else none
  else if 0x30 ≤ c ∧ c ≤ 0x39 then some (c - 0x30)
  else if 0x61 ≤ c ∧ c < 0x61 + base - 10 then some (c - 0x61 + 10)
  else if 0x41 ≤ c ∧ c < 0x41 + base - 10 then some (c - 0x41 + 10)
  else none

/-- The loop of `Base::Invoke` from a character on: what it returns and what it leaves in `*output`. Where a digit does not
fit, `CheckBounds` leaves the limit there. -/
def baseInvokeFrom (type : IntegerType) (base : Nat) (sign : Sign) (limit : Int) : Bool → Int → List Nat → Option (Bool × Int)
  | _, output, [] => some (true, output)
  | isFirst, output, current :: rest =>
    match charToDigitOf base current with
    | none => some (false, output)
    | some newDigit =>
      if !isFirst && !sign.checkBounds output newDigit then some (false, limit)
      else
        let scaled := if isFirst then some output else type.fit (output * base)
        let incremented := scaled.bind fun output => type.fit (sign.increment newDigit output)
        incremented.bind fun output => baseInvokeFrom type base sign limit false output rest

/-- `Base::Invoke`. -/
def baseInvoke (type : IntegerType) (base : Nat) (sign : Sign) (limit : Int) (input : List Nat) : Option (Bool × Int) :=
  if input = [] then some (false, 0)
  else
    let digits := if base = 16 ∧ 2 < input.length ∧ input[0]? = some 0x30 ∧ (input[1]? = some 0x78 ∨ input[1]? = some 0x58)
      then input.drop 2 else input
    baseInvokeFrom type base sign limit true 0 digits

/-- What a conversion returns, and what it leaves in `*output` if it writes there. -/
structure Conversion where
  valid : Bool
  output : Option Int
deriving DecidableEq

/-- `IteratorRangeToNumber::Invoke`; none where a computation overflows. -/
def iteratorRangeToNumber (locale : Locale) (type : IntegerType) (base : Nat) (input : List Nat) : Option Conversion :=
  let valid := !input.head?.any locale.isWhitespace
  let begin := input.dropWhile locale.isWhitespace
  if begin.head? = some 0x2d then
    if !type.isSigned then some ⟨false, none⟩
    else
      (baseInvoke type base (negative (type.traits base)) type.min begin.tail).map fun converted =>
        ⟨valid && converted.1, some converted.2⟩
  else
    let begin := if begin.head? = some 0x2b then begin.tail else begin
    (baseInvoke type base (positive (type.traits base)) type.max begin).map fun converted =>
      ⟨valid && converted.1, some converted.2⟩

/-- `StringToIntImpl` and `String16ToIntImpl`. -/
def stringToIntImpl {w : Nat} (locale : Locale) (type : IntegerType) (input : List (BitVec w)) : Option Conversion :=
  iteratorRangeToNumber locale type 10 (input.map BitVec.toNat)

/-- The conversions of hexadecimal text. -/
def hexStringToNumber (locale : Locale) (type : IntegerType) (input : List Byte) : Option Conversion :=
  iteratorRangeToNumber locale type 16 (input.map BitVec.toNat)

section Members

variable {w : Nat} (locale : Locale)

def stringToInt (input : List (BitVec w)) : Option Conversion := stringToIntImpl locale .int32 input
def stringToUint (input : List (BitVec w)) : Option Conversion := stringToIntImpl locale .uint32 input
def stringToInt64 (input : List (BitVec w)) : Option Conversion := stringToIntImpl locale .int64 input
def stringToUint64 (input : List (BitVec w)) : Option Conversion := stringToIntImpl locale .uint64 input
def stringToSizeT (wide : Bool) (input : List (BitVec w)) : Option Conversion := stringToIntImpl locale (.sizeT wide) input
def hexStringToInt (input : List Byte) : Option Conversion := hexStringToNumber locale .int32 input
def hexStringToUInt (input : List Byte) : Option Conversion := hexStringToNumber locale .uint32 input
def hexStringToInt64 (input : List Byte) : Option Conversion := hexStringToNumber locale .int64 input
def hexStringToUInt64 (input : List Byte) : Option Conversion := hexStringToNumber locale .uint64 input

end Members

/-! ### Writing -/

/-- `CheckedUnsignedAbs`. -/
def checkedUnsignedAbs (type : IntegerType) (value : Int) : Nat :=
  if type.isSigned then if value = type.min then type.max.toNat + 1 else value.natAbs else value.toNat

def kOutputBufSize (type : IntegerType) : Nat := 3 * type.size + if type.isSigned then 1 else 0

/-- The loop of `IntToString` at `i`, with what is written from there on; none where a `DCHECK` fails. -/
def writeDigits : Nat → Nat → List Nat → Option (Nat × List Nat)
  | 0, _, _ => none
  | i + 1, res, written =>
    if i = 0 then none
    else
      let written := (res % 10 + 0x30) :: written
      if res / 10 ≠ 0 then writeDigits i (res / 10) written else some (i, written)

/-- `IntToStringT::IntToString`. -/
def integerToString (w : Nat) (type : IntegerType) (value : Int) : Option (List (BitVec w)) := do
  let (i, written) ← writeDigits (kOutputBufSize type) (checkedUnsignedAbs type value) []
  let written ← if value < 0 then if i - 1 = 0 then none else some (0x2d :: written) else some written
  some (written.map (BitVec.ofNat w))

/-! ### Digits -/

theorem charToDigitOf_lt {base c digit : Nat} (converted : charToDigitOf base c = some digit) : digit < base := by
  unfold charToDigitOf at converted
  split_ifs at converted
  all_goals
    rw [Option.some.injEq] at converted
    omega

/-- The first letter behind the digits is `z`. -/
theorem graphic_of_digit {base c digit : Nat} (small : base ≤ 36) (converted : charToDigitOf base c = some digit) :
    0x30 ≤ c ∧ c ≤ 0x7a := by
  unfold charToDigitOf at converted
  split_ifs at converted
  all_goals omega

/-- The number that digits spell. -/
def spell (base : Nat) (digits : List Nat) : Nat := Nat.ofDigits base digits.reverse

theorem spell_concat (base : Nat) (digits : List Nat) (digit : Nat) :
    spell base (digits ++ [digit]) = spell base digits * base + digit := by
  rw [spell, List.reverse_append, List.reverse_singleton, List.singleton_append, Nat.ofDigits_cons, spell, Nat.mul_comm,
    Nat.add_comm]

theorem spell_eq_foldl (base : Nat) (digits : List Nat) :
    spell base digits = digits.foldl (fun number digit => number * base + digit) 0 := by
  induction digits using List.reverseRecOn with
  | nil => rfl
  | append_singleton digits digit ih => rw [spell_concat, List.foldl_append, ih, List.foldl_cons, List.foldl_nil]

theorem le_foldl {base : Nat} (positive : 0 < base) (digits : List Nat) (number : Nat) :
    number ≤ digits.foldl (fun number digit => number * base + digit) number := by
  induction digits generalizing number with
  | nil => exact Nat.le_refl _
  | cons digit rest ih =>
    calc number ≤ number * base := Nat.le_mul_of_pos_right number positive
      _ ≤ number * base + digit := Nat.le_add_right _ _
      _ ≤ _ := ih _

/-! ### One sign -/

/-- What a sign does, on the absolute value of the output: `room` is the greatest one. -/
structure Keeps (type : IntegerType) (base : Nat) (sign : Sign) (limit : Int) (signed : Nat → Int) (room : Nat) : Prop where
  zero : signed 0 = 0
  increment : ∀ number digit, sign.increment digit (signed number) = signed (number + digit)
  scale : ∀ number, signed number * base = signed (number * base)
  fits : ∀ number ≤ room, type.fit (signed number) = some (signed number)
  checkBounds : ∀ number digit, digit < base →
    (sign.checkBounds (signed number) digit = true ↔ number * base + digit ≤ room)
  limit : limit = signed room
  roomy : base ≤ room

theorem lt_div_or_iff {base room number digit : Nat} (small : digit < base) :
    ¬ (room / base < number ∨ (number = room / base ∧ room % base < digit)) ↔ number * base + digit ≤ room := by
  have split := Nat.div_add_mod room base
  have below := Nat.mod_lt room (Nat.zero_lt_of_lt small)
  rw [Nat.mul_comm] at split
  constructor
  · intro inside
    rcases Nat.lt_trichotomy number (room / base) with less | same | more
    · have step := Nat.mul_le_mul_right base (Nat.succ_le_of_lt less)
      rw [Nat.succ_mul] at step
      omega
    · subst same
      omega
    · exact absurd (.inl more) inside
  · rintro inside (more | ⟨rfl, greater⟩)
    · have step := Nat.mul_le_mul_right base (Nat.succ_le_of_lt more)
      rw [Nat.succ_mul] at step
      omega
    · omega

namespace IntegerType

/-- The bounds of a type, by the greatest absolute value. -/
theorem exists_room (type : IntegerType) : ∃ room : Nat, 36 ≤ room ∧ type.max = room ∧
    type.min = if type.isSigned then -((room + 1 : Nat) : Int) else 0 := by
  obtain ⟨isSigned, size, rfl | rfl⟩ := type
  · cases isSigned
    · exact ⟨2 ^ 32 - 1, by decide, rfl, rfl⟩
    · exact ⟨2 ^ 31 - 1, by decide, rfl, rfl⟩
  · cases isSigned
    · exact ⟨2 ^ 64 - 1, by decide, rfl, rfl⟩
    · exact ⟨2 ^ 63 - 1, by decide, rfl, rfl⟩

theorem min_nonpos (type : IntegerType) : type.min ≤ 0 := by
  obtain ⟨room, _, _, min⟩ := type.exists_room
  rw [min]
  split_ifs <;> omega

theorem fit_eq {type : IntegerType} {value : Int} (lower : type.min ≤ value) (upper : value ≤ type.max) :
    type.fit value = some value := if_pos ⟨lower, upper⟩

end IntegerType

theorem keeps_positive (type : IntegerType) {base : Nat} (small : base ≤ 36) :
    ∃ room : Nat, type.max = room ∧
      Keeps type base (positive (type.traits base)) type.max (fun number => (number : Int)) room := by
  obtain ⟨room, roomy, max, _⟩ := type.exists_room
  refine ⟨room, max, ?_⟩
  constructor
  case zero => rfl
  case increment => exact fun number digit => (Int.natCast_add number digit).symm
  case scale => exact fun number => (Int.natCast_mul number base).symm
  case fits =>
    intro number inside
    exact IntegerType.fit_eq (type.min_nonpos.trans (Int.natCast_nonneg number)) (by omega)
  case checkBounds =>
    intro number digit digitSmall
    rw [← lt_div_or_iff digitSmall]
    simp only [positive, IntegerType.traits, max, ← Int.ofNat_tdiv, ← Int.ofNat_tmod, Bool.not_eq_true',
      Bool.or_eq_false_iff, Bool.and_eq_false_iff, decide_eq_false_iff_not]
    omega
  case limit => exact max
  case roomy => omega

theorem keeps_negative {type : IntegerType} (isSigned : type.isSigned = true) {base : Nat} (small : base ≤ 36) :
    ∃ room : Nat, type.min = -(room : Int) ∧
      Keeps type base (negative (type.traits base)) type.min (fun number => -(number : Int)) room := by
  obtain ⟨room, roomy, max, min⟩ := type.exists_room
  rw [isSigned, if_pos rfl] at min
  refine ⟨room + 1, min, ?_⟩
  constructor
  case zero => rfl
  case increment =>
    intro number digit
    simp only [negative]
    omega
  case scale =>
    intro number
    rw [Int.neg_mul, Int.natCast_mul]
  case fits =>
    intro number inside
    exact IntegerType.fit_eq (by omega) (by omega)
  case checkBounds =>
    intro number digit digitSmall
    rw [← lt_div_or_iff digitSmall]
    simp only [negative, IntegerType.traits, min, Int.neg_tdiv, Int.neg_tmod, ← Int.ofNat_tdiv, ← Int.ofNat_tmod,
      Bool.not_eq_true', Bool.or_eq_false_iff, Bool.and_eq_false_iff, decide_eq_false_iff_not]
    omega
  case limit => exact min
  case roomy => omega

/-! ### The loop -/

section Loop

variable {type : IntegerType} {base : Nat} {sign : Sign} {limit : Int} {signed : Nat → Int} {room : Nat}
  (keeps : Keeps type base sign limit signed room)

/-- What stands behind the digits that are read: nothing, or what begins with no digit. -/
def Stops (base : Nat) (rest : List Nat) : Prop := ∀ c ∈ rest.head?, charToDigitOf base c = none

/-- What the loop returns and leaves behind for a number and what follows it. -/
def clamped (limit : Int) (signed : Nat → Int) (room number : Nat) (rest : List Nat) : Bool × Int :=
  if number ≤ room then (rest.isEmpty, signed number) else (false, limit)

theorem baseInvokeFrom_stops (isFirst : Bool) (output : Int) {rest : List Nat} (stops : Stops base rest) :
    baseInvokeFrom type base sign limit isFirst output rest = some (rest.isEmpty, output) := by
  cases rest with
  | nil => rfl
  | cons c rest =>
    rw [baseInvokeFrom, stops c rfl]
    rfl

include keeps

theorem baseInvokeFrom_later {numerals digits rest : List Nat} {number : Nat} (inside : number ≤ room)
    (converted : numerals.map (charToDigitOf base) = digits.map some) (stops : Stops base rest) :
    baseInvokeFrom type base sign limit false (signed number) (numerals ++ rest) =
      some (clamped limit signed room (digits.foldl (fun number digit => number * base + digit) number) rest) := by
  induction numerals generalizing digits number with
  | nil =>
    have none : digits = [] := List.map_eq_nil_iff.mp converted.symm
    rw [none, List.nil_append, baseInvokeFrom_stops false _ stops, List.foldl_nil, clamped, if_pos inside]
  | cons c numerals ih =>
    cases digits with
    | nil => cases converted
    | cons digit digits =>
      rw [List.map_cons, List.map_cons, List.cons.injEq] at converted
      have small := charToDigitOf_lt converted.1
      have checked := keeps.checkBounds number digit small
      have positive : 0 < base := Nat.zero_lt_of_lt small
      rw [List.cons_append, baseInvokeFrom, converted.1, List.foldl_cons]
      by_cases fits : number * base + digit ≤ room
      · have scaled : number * base ≤ room := Nat.le_of_add_right_le fits
        simp only [checked.mpr fits, Bool.not_true, Bool.and_false, Bool.false_eq_true, if_false, keeps.scale,
          keeps.fits _ scaled, keeps.increment, keeps.fits _ fits, Option.bind_some]
        exact ih fits converted.2
      · have failed : sign.checkBounds (signed number) digit = false :=
          Bool.eq_false_of_not_eq_true fun passed => fits (checked.mp passed)
        have greater := le_foldl positive digits (number * base + digit)
        simp only [failed, Bool.not_false, Bool.and_self, if_true, clamped]
        rw [if_neg (by omega)]

theorem baseInvokeFrom_first {numerals digits rest : List Nat} (some_ : numerals ≠ [])
    (converted : numerals.map (charToDigitOf base) = digits.map some) (stops : Stops base rest) :
    baseInvokeFrom type base sign limit true 0 (numerals ++ rest) =
      some (clamped limit signed room (spell base digits) rest) := by
  cases numerals with
  | nil => exact absurd rfl some_
  | cons c numerals =>
    cases digits with
    | nil => cases converted
    | cons digit digits =>
      rw [List.map_cons, List.map_cons, List.cons.injEq] at converted
      have small := charToDigitOf_lt converted.1
      have inside : digit ≤ room := small.le.trans keeps.roomy
      have first : sign.increment digit 0 = signed digit := by
        rw [← keeps.zero, keeps.increment, Nat.zero_add]
      rw [List.cons_append, baseInvokeFrom, converted.1, spell_eq_foldl, List.foldl_cons, Nat.zero_mul, Nat.zero_add]
      simp only [Bool.not_true, Bool.false_and, Bool.false_eq_true, if_false, if_true, first, keeps.fits _ inside,
        Option.bind_some]
      exact baseInvokeFrom_later keeps inside converted.2 stops

end Loop

end Libchrome.Base.Strings
