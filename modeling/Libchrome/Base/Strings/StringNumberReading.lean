import Libchrome.Base.Strings.StringNumberConversions

/-!
# What the conversions make of a text

A text begins with blanks, a sign and a numeral, the longest there is. A conversion reads the number it spells, as near as
its type allows, and returns whether it has read the whole text and the number itself.
-/

namespace Libchrome.Base.Strings
open Library.Bytes NumberConversions

/-- Nothing, or `0x` before hexadecimal digits. -/
def IsRadix (base : Nat) (radix : List Nat) : Prop :=
  radix = [] ∨ (base = 16 ∧ ∃ x, (x = 0x78 ∨ x = 0x58) ∧ radix = [0x30, x])

/-- A sign, where a minus may be allowed. -/
def IsSign (minus negative : Bool) (sign : List Nat) : Prop :=
  if negative then minus = true ∧ sign = [0x2d] else sign = [] ∨ sign = [0x2b]

/-- Digits stand behind a zero and an `x`. -/
def HexFollows (base : Nat) (rest : List Nat) : Prop :=
  base = 16 ∧ ∃ x c more digit, rest = x :: c :: more ∧ (x = 0x78 ∨ x = 0x58) ∧ charToDigitOf base c = some digit

/-- The longest numeral at the front of a text. -/
structure Numeral (base : Nat) (body digits rest : List Nat) : Prop where
  split : ∃ radix numerals, IsRadix base radix ∧ body = radix ++ (numerals ++ rest) ∧
    numerals.map (charToDigitOf base) = digits.map some ∧ (radix = [] → digits = [0] → ¬ HexFollows base rest)
  written : digits ≠ []
  stops : Stops base rest

/-- Blanks, a sign and the longest numeral at the front of a text. -/
structure Reading (locale : Locale) (base : Nat) (minus : Bool) (text blanks : List Nat) (negative : Bool)
    (digits rest : List Nat) : Prop where
  split : ∃ sign body, IsSign minus negative sign ∧ text = blanks ++ (sign ++ body) ∧ Numeral base body digits rest
  blank : ∀ c ∈ blanks, locale.isWhitespace c = true

def signedValue (negative : Bool) (number : Nat) : Int := if negative then -(number : Int) else number

/-- The whole text is a sign, a radix and digits. -/
def Denotes (base : Nat) (minus : Bool) (text : List Nat) (value : Int) : Prop :=
  ∃ negative sign radix numerals digits, IsSign minus negative sign ∧ IsRadix base radix ∧
    text = sign ++ (radix ++ numerals) ∧ numerals.map (charToDigitOf base) = digits.map some ∧ digits ≠ [] ∧
      value = signedValue negative (spell base digits)

/-- The value of the type that is nearest. -/
def IntegerType.clamp (type : IntegerType) (value : Int) : Int :=
  if type.max < value then type.max else if value < type.min then type.min else value

/-- What a conversion does with a text; where it meets a minus and its type has no sign, it only fails. -/
structure ConvertsNumber (locale : Locale) (type : IntegerType) (base : Nat) (text : List Nat) (conversion : Conversion) :
    Prop where
  valid : conversion.valid = true ↔
    ∃ value, Denotes base type.isSigned text value ∧ type.min ≤ value ∧ value ≤ type.max
  output : ∀ blanks negative digits rest, Reading locale base type.isSigned text blanks negative digits rest →
    conversion.output = some (type.clamp (signedValue negative (spell base digits)))
  nothing : (∀ blanks negative digits rest, ¬ Reading locale base type.isSigned text blanks negative digits rest) →
    (type.isSigned = true ∨ (text.dropWhile locale.isWhitespace).head? ≠ some 0x2d) → conversion.output = some 0

/-! ### The numeral -/

theorem x_not_digit {x : Nat} (letter : x = 0x78 ∨ x = 0x58) : charToDigitOf 16 x = none := by
  rcases letter with rfl | rfl <;> decide

/-- Whether `Base::Invoke` drops a prefix. -/
def Prefixed (base : Nat) (body : List Nat) : Prop :=
  base = 16 ∧ ∃ x c more, body = 0x30 :: x :: c :: more ∧ (x = 0x78 ∨ x = 0x58)

theorem prefixed_iff (base : Nat) (body : List Nat) :
    (base = 16 ∧ 2 < body.length ∧ body[0]? = some 0x30 ∧ (body[1]? = some 0x78 ∨ body[1]? = some 0x58)) ↔
      Prefixed base body := by
  refine and_congr_right fun _ => ?_
  constructor
  · rintro ⟨long, first, second⟩
    match body with
    | head :: x :: c :: more =>
      simp only [List.getElem?_cons_zero, List.getElem?_cons_succ, Option.some.injEq] at first second
      exact ⟨x, c, more, by rw [first], second⟩
  · rintro ⟨x, c, more, rfl, letter⟩
    simp only [List.length_cons, List.getElem?_cons_zero, List.getElem?_cons_succ, Option.some.injEq]
    exact ⟨by omega, trivial, letter⟩

theorem baseInvoke_prefixed (type : IntegerType) (sign : Sign) (limit : Int) {x : Nat} (letter : x = 0x78 ∨ x = 0x58)
    (c : Nat) (more : List Nat) : baseInvoke type 16 sign limit (0x30 :: x :: c :: more) =
      baseInvokeFrom type 16 sign limit true 0 (c :: more) := by
  have isPrefixed : Prefixed 16 (0x30 :: x :: c :: more) := ⟨rfl, x, c, more, rfl, letter⟩
  rw [baseInvoke, if_neg (List.cons_ne_nil _ _), if_pos ((prefixed_iff 16 _).mpr isPrefixed)]
  rfl

theorem baseInvoke_plain (type : IntegerType) {base : Nat} (sign : Sign) (limit : Int) {body : List Nat}
    (some_ : body ≠ []) (plain : ¬ Prefixed base body) :
    baseInvoke type base sign limit body = baseInvokeFrom type base sign limit true 0 body := by
  rw [baseInvoke, if_neg some_, if_neg (mt (prefixed_iff base body).mp plain)]

theorem stops_cons {base c : Nat} {rest : List Nat} (notDigit : ∀ digit, charToDigitOf base c ≠ some digit) :
    Stops base (c :: rest) := by
  intro first member
  rw [List.head?_cons, Option.mem_some_iff] at member
  rw [← member]
  exact Option.eq_none_iff_forall_ne_some.mpr notDigit

theorem exists_digits (base : Nat) (input : List Nat) : ∃ numerals digits rest : List Nat, input = numerals ++ rest ∧
    numerals.map (charToDigitOf base) = digits.map some ∧ Stops base rest := by
  induction input with
  | nil => exact ⟨[], [], [], rfl, rfl, nofun⟩
  | cons c input ih =>
    cases converted : charToDigitOf base c with
    | none => exact ⟨[], [], c :: input, rfl, rfl, stops_cons (by simp [converted])⟩
    | some digit =>
      obtain ⟨numerals, digits, rest, rfl, others, stops⟩ := ih
      refine ⟨c :: numerals, digit :: digits, rest, rfl, ?_, stops⟩
      rw [List.map_cons, List.map_cons, converted, others]

theorem eq_zero_of_digit {base c : Nat} (converted : charToDigitOf base c = some 0) : c = 0x30 := by
  unfold charToDigitOf at converted
  split_ifs at converted
  all_goals
    rw [Option.some.injEq] at converted
    omega

theorem exists_numeral_of_digit {base c digit : Nat} {others radix : List Nat} (isRadix : IsRadix base radix)
    (converted : charToDigitOf base c = some digit) (plain : radix = [] → ¬ Prefixed base (c :: others)) :
    ∃ digits rest, Numeral base (radix ++ c :: others) digits rest := by
  obtain ⟨numerals, digits, rest, split, same, stops⟩ := exists_digits base (c :: others)
  refine ⟨digits, rest, ⟨radix, numerals, isRadix, by rw [split], same, ?_⟩, ?_, stops⟩
  · rintro noRadix rfl ⟨rfl, x, d, more, _, rfl, letter, _⟩
    obtain ⟨first, rfl, isZero⟩ := List.map_eq_singleton_iff.mp same
    rw [eq_zero_of_digit isZero, List.singleton_append] at split
    exact plain noRadix ⟨rfl, x, d, more, split, letter⟩
  · rintro rfl
    rw [List.map_nil, List.map_eq_nil_iff] at same
    rw [same, List.nil_append] at split
    have stopped := stops c (by rw [← split]; rfl)
    rw [converted] at stopped
    cases stopped

section Signs

variable {type : IntegerType} {base : Nat} {sign : Sign} {limit : Int} {body : List Nat}

/-- Without a numeral there is no digit to read. -/
theorem baseInvoke_nothing (nothing : ∀ digits rest, ¬ Numeral base body digits rest) :
    baseInvoke type base sign limit body = some (false, 0) := by
  cases body with
  | nil => rfl
  | cons first others =>
    by_cases isPrefixed : Prefixed base (first :: others)
    · obtain ⟨rfl, x, c, more, same, letter⟩ := isPrefixed
      rw [same] at nothing ⊢
      rw [baseInvoke_prefixed type sign limit letter]
      refine baseInvokeFrom_stops true 0 (stops_cons fun digit converted => ?_)
      obtain ⟨digits, rest, numeral⟩ := @exists_numeral_of_digit 16 c digit more [0x30, x] (.inr ⟨rfl, x, letter, rfl⟩)
        converted (fun none => absurd none (List.cons_ne_nil _ _))
      exact nothing digits rest numeral
    · rw [baseInvoke_plain type sign limit (List.cons_ne_nil _ _) isPrefixed]
      refine baseInvokeFrom_stops true 0 (stops_cons fun digit converted => ?_)
      obtain ⟨digits, rest, numeral⟩ := @exists_numeral_of_digit base first digit others [] (.inl rfl) converted
        (fun _ => isPrefixed)
      exact nothing digits rest numeral

theorem numeral_of_prefixed {x c : Nat} {more numerals digits rest : List Nat} (letter : x = 0x78 ∨ x = 0x58)
    (split : 0x30 :: x :: c :: more = numerals ++ rest) (converted : numerals.map (charToDigitOf 16) = digits.map some)
    (written : digits ≠ []) : digits = [0] ∧ rest = x :: c :: more := by
  obtain ⟨digit, digits, rfl⟩ := List.exists_cons_of_ne_nil written
  cases numerals with
  | nil => cases converted
  | cons first numerals =>
    rw [List.cons_append, List.cons.injEq] at split
    obtain ⟨rfl, split⟩ := split
    rw [List.map_cons, List.map_cons, List.cons.injEq] at converted
    have isZero : digit = 0 := (Option.some.inj converted.1).symm
    cases numerals with
    | nil => exact ⟨by rw [isZero, List.map_eq_nil_iff.mp converted.2.symm], split.symm⟩
    | cons second numerals =>
      rw [List.cons_append, List.cons.injEq] at split
      have others := converted.2
      rw [← split.1, List.map_cons, x_not_digit letter] at others
      cases digits with
      | nil => cases others
      | cons digit digits =>
        rw [List.map_cons, List.cons.injEq] at others
        cases others.1

theorem baseInvoke_numeral {signed : Nat → Int} {room : Nat} (keeps : Keeps type base sign limit signed room)
    {digits rest : List Nat} (numeral : Numeral base body digits rest) :
    baseInvoke type base sign limit body = some (clamped limit signed room (spell base digits) rest) := by
  obtain ⟨⟨radix, numerals, isRadix, rfl, converted, longest⟩, written, stops⟩ := numeral
  have some_ : numerals ≠ [] := by
    rintro rfl
    exact written (List.map_eq_nil_iff.mp converted.symm)
  rcases isRadix with rfl | ⟨rfl, x, letter, rfl⟩
  · rw [List.nil_append]
    by_cases isPrefixed : Prefixed base (numerals ++ rest)
    · obtain ⟨rfl, x, c, more, same, letter⟩ := isPrefixed
      obtain ⟨rfl, rfl⟩ := numeral_of_prefixed letter same.symm converted written
      have notDigit : Stops 16 (c :: more) :=
        stops_cons fun digit isDigit => longest rfl rfl ⟨rfl, x, c, more, digit, rfl, letter, isDigit⟩
      rw [same, baseInvoke_prefixed type sign limit letter, baseInvokeFrom_stops true 0 notDigit,
        show spell 16 [0] = 0 from rfl, clamped, if_pos (Nat.zero_le room), keeps.zero]
      rfl
    · rw [baseInvoke_plain type sign limit (List.append_ne_nil_of_left_ne_nil some_ rest) isPrefixed]
      exact baseInvokeFrom_first keeps some_ converted stops
  · obtain ⟨c, others, rfl⟩ := List.exists_cons_of_ne_nil some_
    rw [← baseInvokeFrom_first keeps some_ converted stops]
    exact baseInvoke_prefixed type sign limit letter c (others ++ rest)

end Signs

/-! ### The whole text -/

def inRange (type : IntegerType) (value : Int) : Bool := type.min ≤ value && value ≤ type.max

theorem clamped_positive {type : IntegerType} {room : Nat} (max : type.max = room) (number : Nat) (rest : List Nat) :
    clamped type.max (fun number => (number : Int)) room number rest =
      (inRange type number && rest.isEmpty, type.clamp number) := by
  have lower : type.min ≤ number := type.min_nonpos.trans (Int.natCast_nonneg number)
  rw [clamped, inRange, IntegerType.clamp, decide_eq_true lower, Bool.true_and]
  by_cases inside : number ≤ room
  · rw [if_pos inside, if_neg (by omega), if_neg (by omega), decide_eq_true (by omega), Bool.true_and]
  · rw [if_neg inside, if_pos (by omega), decide_eq_false (by omega), Bool.false_and]

theorem clamped_negative {type : IntegerType} {room : Nat} (min : type.min = -(room : Int)) (number : Nat) (rest : List Nat) :
    clamped type.min (fun number => -(number : Int)) room number rest =
      (inRange type (-(number : Int)) && rest.isEmpty, type.clamp (-(number : Int))) := by
  obtain ⟨_, _, max, _⟩ := type.exists_room
  have upper : -(number : Int) ≤ type.max := by omega
  rw [clamped, inRange, IntegerType.clamp, decide_eq_true upper, Bool.and_true, if_neg (Int.not_lt.mpr upper)]
  by_cases inside : number ≤ room
  · rw [if_pos inside, if_neg (by omega), decide_eq_true (by omega), Bool.true_and]
  · rw [if_neg inside, if_pos (by omega), decide_eq_false (by omega), Bool.false_and]

theorem Numeral.exists_cons {base : Nat} (small : base ≤ 36) {body digits rest : List Nat}
    (numeral : Numeral base body digits rest) : ∃ c others, body = c :: others ∧ 0x30 ≤ c ∧ c ≤ 0x7a := by
  obtain ⟨⟨radix, numerals, isRadix, rfl, converted, _⟩, written, _⟩ := numeral
  obtain ⟨digit, digits, rfl⟩ := List.exists_cons_of_ne_nil written
  rcases isRadix with rfl | ⟨rfl, x, _, rfl⟩
  · cases numerals with
    | nil => cases converted
    | cons c numerals =>
      rw [List.map_cons, List.map_cons, List.cons.injEq] at converted
      exact ⟨c, numerals ++ rest, rfl, graphic_of_digit small converted.1⟩
  · exact ⟨0x30, x :: (numerals ++ rest), rfl, by decide, by decide⟩

section Texts

variable {locale : Locale} {type : IntegerType} {base : Nat} {text : List Nat}

theorem dropWhile_blanks {blanks : List Nat} (blank : ∀ c ∈ blanks, locale.isWhitespace c = true) {c : Nat}
    (graphic : 0x21 ≤ c ∧ c < 0x7f) (others : List Nat) :
    (blanks ++ c :: others).dropWhile locale.isWhitespace = c :: others ∧
      (!(blanks ++ c :: others).head?.any locale.isWhitespace) = blanks.isEmpty := by
  have plain := locale.graphic c graphic.1 graphic.2
  constructor
  · rw [List.dropWhile_append_of_pos blank, List.dropWhile_cons_of_neg (by rw [plain]; exact Bool.false_ne_true)]
  · cases blanks with
    | nil => simp [plain]
    | cons first blanks => simp [blank first List.mem_cons_self]

theorem iteratorRangeToNumber_reading (small : base ≤ 36) {blanks digits rest : List Nat} {negative : Bool}
    (reading : Reading locale base type.isSigned text blanks negative digits rest) :
    iteratorRangeToNumber locale type base text =
      some ⟨blanks.isEmpty && (inRange type (signedValue negative (spell base digits)) && rest.isEmpty),
        some (type.clamp (signedValue negative (spell base digits)))⟩ := by
  obtain ⟨⟨sign, body, isSign, rfl, numeral⟩, blank⟩ := reading
  obtain ⟨c, others, same, lower, upper⟩ := numeral.exists_cons small
  obtain ⟨room, max, keeps⟩ := keeps_positive type small
  have read := baseInvoke_numeral keeps numeral
  rw [clamped_positive max] at read
  cases negative with
  | true =>
    obtain ⟨isSigned, rfl⟩ := isSign
    obtain ⟨room, min, keeps⟩ := keeps_negative isSigned small
    have read := baseInvoke_numeral keeps numeral
    rw [clamped_negative min] at read
    have front := dropWhile_blanks blank (show 0x21 ≤ 0x2d ∧ 0x2d < 0x7f by decide) body
    rw [iteratorRangeToNumber, List.singleton_append, front.1, front.2]
    simp only [List.head?_cons, if_true, isSigned, Bool.not_true, Bool.false_eq_true, if_false, List.tail_cons, read,
      Option.map_some, signedValue]
  | false =>
    rcases isSign with rfl | rfl
    · have front := dropWhile_blanks blank (show 0x21 ≤ c ∧ c < 0x7f by omega) others
      rw [← same] at front
      have noMinus : body.head? ≠ some 0x2d := by
        rw [same, List.head?_cons, Ne, Option.some.injEq]
        omega
      have noPlus : body.head? ≠ some 0x2b := by
        rw [same, List.head?_cons, Ne, Option.some.injEq]
        omega
      rw [iteratorRangeToNumber, List.nil_append, front.1, front.2]
      simp only [noMinus, noPlus, if_false, read, Option.map_some, signedValue, Bool.false_eq_true]
    · have front := dropWhile_blanks blank (show 0x21 ≤ 0x2b ∧ 0x2b < 0x7f by decide) body
      rw [iteratorRangeToNumber, List.singleton_append, front.1, front.2]
      simp only [List.head?_cons, Option.some.injEq, show ¬ 0x2b = 0x2d by decide, if_false, if_true, List.tail_cons, read,
        Option.map_some, signedValue, Bool.false_eq_true]

/-- A text without a number leaves zero, or nothing where a type without a sign meets a minus. -/
theorem iteratorRangeToNumber_nothing
    (nothing : ∀ blanks negative digits rest, ¬ Reading locale base type.isSigned text blanks negative digits rest) :
    iteratorRangeToNumber locale type base text = some ⟨false,
      if !type.isSigned && (text.dropWhile locale.isWhitespace).head? = some 0x2d then none else some 0⟩ := by
  have none {negative : Bool} {sign body : List Nat} (isSign : IsSign type.isSigned negative sign)
      (front : text.dropWhile locale.isWhitespace = sign ++ body) : ∀ digits rest, ¬ Numeral base body digits rest := by
    intro digits rest numeral
    refine nothing (text.takeWhile locale.isWhitespace) negative digits rest ⟨⟨sign, body, isSign, ?_, numeral⟩, ?_⟩
    · rw [← front, List.takeWhile_append_dropWhile]
    · exact List.all_eq_true.mp List.all_takeWhile
  rw [iteratorRangeToNumber]
  generalize text.dropWhile locale.isWhitespace = front at none
  by_cases minus : front.head? = some 0x2d
  · obtain ⟨body, rfl⟩ := List.head?_eq_some_iff.mp minus
    cases isSigned : type.isSigned
    · simp
    · have read := fun sign limit =>
        @baseInvoke_nothing type base sign limit body (@none true [0x2d] body ⟨isSigned, rfl⟩ rfl)
      simp [read]
  · by_cases plus : front.head? = some 0x2b
    · obtain ⟨body, rfl⟩ := List.head?_eq_some_iff.mp plus
      have read := fun sign limit => @baseInvoke_nothing type base sign limit body (@none false [0x2b] body (.inr rfl) rfl)
      simp [read]
    · have read := fun sign limit => @baseInvoke_nothing type base sign limit front (@none false [] front (.inl rfl) rfl)
      simp [read, minus, plus]

/-- A whole number is the longest one. -/
theorem reading_of_denotes {minus : Bool} {value : Int} (denotes : Denotes base minus text value) :
    ∃ negative digits, value = signedValue negative (spell base digits) ∧
      Reading locale base minus text [] negative digits [] := by
  obtain ⟨negative, sign, radix, numerals, digits, isSign, isRadix, same, converted, written, value⟩ := denotes
  refine ⟨negative, digits, value, ⟨sign, radix ++ numerals, isSign, same, ?_⟩, nofun⟩
  refine ⟨⟨radix, numerals, isRadix, by rw [List.append_nil], converted, ?_⟩, written, nofun⟩
  rintro _ _ ⟨_, _, _, _, _, nothing, _⟩
  cases nothing

theorem denotes_of_reading {minus negative : Bool} {digits : List Nat}
    (reading : Reading locale base minus text [] negative digits []) :
    Denotes base minus text (signedValue negative (spell base digits)) := by
  obtain ⟨⟨sign, body, isSign, same, numeral⟩, _⟩ := reading
  obtain ⟨radix, numerals, isRadix, split, converted, _⟩ := numeral.split
  rw [List.append_nil] at split
  refine ⟨negative, sign, radix, numerals, digits, isSign, isRadix, ?_, converted, numeral.written, rfl⟩
  rw [same, List.nil_append, split]

theorem inRange_iff (type : IntegerType) (value : Int) :
    inRange type value = true ↔ type.min ≤ value ∧ value ≤ type.max := by
  simp only [inRange, Bool.and_eq_true, decide_eq_true_eq]

/-- No conversion overflows on its way, and each does with its text what it should. -/
theorem exists_convertsNumber (locale : Locale) (type : IntegerType) {base : Nat} (small : base ≤ 36) (text : List Nat) :
    ∃ conversion, iteratorRangeToNumber locale type base text = some conversion ∧
      ConvertsNumber locale type base text conversion := by
  have whole {value : Int} (denotes : Denotes base type.isSigned text value) (lower : type.min ≤ value)
      (upper : value ≤ type.max) : ∃ output, iteratorRangeToNumber locale type base text = some ⟨true, output⟩ := by
    obtain ⟨negative, digits, rfl, reading⟩ := @reading_of_denotes locale base text type.isSigned value denotes
    have read := iteratorRangeToNumber_reading small reading
    rw [(inRange_iff type _).mpr ⟨lower, upper⟩] at read
    exact ⟨_, read⟩
  by_cases number : ∃ blanks negative digits rest, Reading locale base type.isSigned text blanks negative digits rest
  · obtain ⟨blanks, negative, digits, rest, reading⟩ := number
    have read := iteratorRangeToNumber_reading small reading
    refine ⟨_, read, ?_, ?_, ?_⟩
    · constructor
      · intro valid
        simp only [Bool.and_eq_true, List.isEmpty_iff, inRange_iff] at valid
        obtain ⟨rfl, ⟨lower, upper⟩, rfl⟩ := valid
        exact ⟨_, denotes_of_reading reading, lower, upper⟩
      · rintro ⟨value, denotes, lower, upper⟩
        obtain ⟨output, valid⟩ := whole denotes lower upper
        exact congrArg Conversion.valid (Option.some.inj (read.symm.trans valid))
    · intro blanks negative digits rest other
      have again := iteratorRangeToNumber_reading small other
      exact congrArg Conversion.output (Option.some.inj (read.symm.trans again))
    · exact fun nothing => absurd reading (nothing blanks negative digits rest)
  · have nothing : ∀ blanks negative digits rest, ¬ Reading locale base type.isSigned text blanks negative digits rest :=
      fun blanks negative digits rest reading => number ⟨blanks, negative, digits, rest, reading⟩
    have read := iteratorRangeToNumber_nothing nothing
    refine ⟨_, read, ?_, ?_, ?_⟩
    · refine iff_of_false Bool.false_ne_true ?_
      rintro ⟨value, denotes, lower, upper⟩
      obtain ⟨output, valid⟩ := whole denotes lower upper
      exact absurd (congrArg Conversion.valid (Option.some.inj (read.symm.trans valid))) Bool.false_ne_true
    · exact fun blanks negative digits rest reading => absurd reading (nothing blanks negative digits rest)
    · intro _ written
      have noMinus : (!type.isSigned && decide ((text.dropWhile locale.isWhitespace).head? = some 0x2d)) = false := by
        rcases written with isSigned | other
        · rw [isSigned, Bool.not_true, Bool.false_and]
        · rw [decide_eq_false other, Bool.and_false]
      simp only [noMinus, Bool.false_eq_true, if_false]

end Texts

/-! ### There and back -/

theorem charToDigitOf_ten {digit : Nat} (small : digit < 10) : charToDigitOf 10 (digit + 0x30) = some digit := by
  rw [charToDigitOf, if_pos (Nat.le_refl _), if_pos (by omega), Nat.add_sub_cancel]

/-- The loop writes a number of at most `count + 1` digits and stays that far off the buffer's start. -/
theorem writeDigits_eq (spare count : Nat) (spare_pos : 0 < spare) {res : Nat} (fits : res < 10 ^ (count + 1))
    (written : List Nat) : ∃ i numerals digits, writeDigits (spare + count + 1) res written = some (i, numerals ++ written) ∧
      spare ≤ i ∧ numerals.map (charToDigitOf 10) = digits.map some ∧ digits ≠ [] ∧ spell 10 digits = res := by
  induction count generalizing res written with
  | zero =>
    have single : res / 10 = 0 := by omega
    refine ⟨spare, [res % 10 + 0x30], [res % 10], ?_, Nat.le_refl _, ?_, List.cons_ne_nil _ _, ?_⟩
    · rw [writeDigits, Nat.add_zero, if_neg (by omega), if_neg (by rw [single]; exact fun h => h rfl)]
      rfl
    · rw [List.map_singleton, List.map_singleton, charToDigitOf_ten (by omega)]
    · rw [spell_eq_foldl, List.foldl_cons, List.foldl_nil]
      omega
  | succ count ih =>
    have last : charToDigitOf 10 (res % 10 + 0x30) = some (res % 10) := charToDigitOf_ten (by omega)
    rw [writeDigits, if_neg (by omega)]
    by_cases single : res / 10 = 0
    · refine ⟨spare + (count + 1), [res % 10 + 0x30], [res % 10], ?_, Nat.le_add_right _ _, ?_, List.cons_ne_nil _ _, ?_⟩
      · rw [if_neg (by rw [single]; exact fun h => h rfl)]
        rfl
      · rw [List.map_singleton, List.map_singleton, last]
      · rw [spell_eq_foldl, List.foldl_cons, List.foldl_nil]
        omega
    · rw [Nat.pow_succ] at fits
      obtain ⟨i, numerals, digits, wrote, room, converted, _, value⟩ :=
        ih (show res / 10 < 10 ^ (count + 1) by omega) ((res % 10 + 0x30) :: written)
      refine ⟨i, numerals ++ [res % 10 + 0x30], digits ++ [res % 10], ?_, room, ?_, ?_, ?_⟩
      · rw [if_pos single, List.append_assoc]
        exact wrote
      · rw [List.map_append, List.map_append, converted, List.map_singleton, List.map_singleton, last]
      · exact List.append_ne_nil_of_right_ne_nil _ (List.cons_ne_nil _ _)
      · rw [spell_concat, value]
        omega

theorem checkedUnsignedAbs_eq {type : IntegerType} {value : Int} (lower : type.min ≤ value) (upper : value ≤ type.max) :
    checkedUnsignedAbs type value = value.natAbs ∧ value.natAbs ≤ type.max.toNat + 1 := by
  obtain ⟨room, _, max, min⟩ := type.exists_room
  rw [checkedUnsignedAbs, max, Int.toNat_natCast]
  cases isSigned : type.isSigned
  · rw [isSigned, if_neg Bool.false_ne_true] at min
    rw [if_neg Bool.false_ne_true]
    omega
  · rw [isSigned, if_pos rfl] at min
    rw [if_pos rfl]
    split_ifs <;> omega

theorem IntegerType.exists_bufferSize (type : IntegerType) :
    ∃ count, kOutputBufSize type = 2 + count + 1 ∧ type.max.toNat + 1 < 10 ^ (count + 1) := by
  obtain ⟨isSigned, size, rfl | rfl⟩ := type
  · cases isSigned
    · exact ⟨9, rfl, by decide⟩
    · exact ⟨10, rfl, by decide⟩
  · cases isSigned
    · exact ⟨21, rfl, by decide⟩
    · exact ⟨22, rfl, by decide⟩

theorem isSign_of_value {type : IntegerType} {value : Int} (lower : type.min ≤ value) :
    IsSign type.isSigned (value < 0) (if value < 0 then [0x2d] else []) := by
  obtain ⟨_, _, _, min⟩ := type.exists_room
  by_cases minus : value < 0
  · rw [IsSign, decide_eq_true minus, if_pos rfl, if_pos minus]
    refine ⟨?_, rfl⟩
    by_contra notSigned
    rw [if_neg notSigned] at min
    omega
  · rw [IsSign, decide_eq_false minus, if_neg minus]
    exact .inl rfl

theorem exists_integerToString (w : Nat) (type : IntegerType) {value : Int} (lower : type.min ≤ value)
    (upper : value ≤ type.max) : ∃ text, integerToString w type value = some (text.map (BitVec.ofNat w)) ∧
      Denotes 10 type.isSigned text value ∧ ∀ c ∈ text, c < 0x80 := by
  obtain ⟨count, size, bounds⟩ := type.exists_bufferSize
  obtain ⟨same, atMost⟩ := checkedUnsignedAbs_eq lower upper
  obtain ⟨i, numerals, digits, wrote, room, converted, written, spelled⟩ :=
    writeDigits_eq 2 count (by decide) (atMost.trans_lt bounds) []
  rw [List.append_nil] at wrote
  refine ⟨(if value < 0 then [0x2d] else []) ++ numerals, ?_, ?_, ?_⟩
  · rw [integerToString, size, same, wrote]
    by_cases minus : value < 0
    · have inside : ¬ i - 1 = 0 := by omega
      simp [minus, inside]
    · simp [minus]
  · refine ⟨value < 0, _, [], numerals, digits, isSign_of_value lower, .inl rfl, rfl, converted, written, ?_⟩
    rw [spelled, signedValue]
    by_cases minus : value < 0
    · rw [decide_eq_true minus, if_pos rfl]
      omega
    · rw [decide_eq_false minus]
      exact (Int.natAbs_of_nonneg (Int.not_lt.mp minus)).symm
  · intro c member
    rcases List.mem_append.mp member with sign | numeral
    · split_ifs at sign
      · rw [List.mem_singleton.mp sign]
        decide
      · cases sign
    · have digit : charToDigitOf 10 c ∈ digits.map some := converted ▸ List.mem_map_of_mem numeral
      obtain ⟨value, _, isDigit⟩ := List.mem_map.mp digit
      have graphic := graphic_of_digit (by decide) isDigit.symm
      omega

theorem toNat_map_ofNat {w : Nat} (wide : 7 ≤ w) {text : List Nat} (small : ∀ c ∈ text, c < 0x80) :
    (text.map (BitVec.ofNat w)).map BitVec.toNat = text := by
  rw [List.map_map]
  calc text.map (BitVec.toNat ∘ BitVec.ofNat w) = text.map id := List.map_congr_left fun c member => by
        have power : 2 ^ 7 ≤ 2 ^ w := Nat.pow_le_pow_right (by decide) wide
        exact (BitVec.toNat_ofNat c w).trans (Nat.mod_eq_of_lt ((small c member).trans_le power))
    _ = text := List.map_id text

theorem stringToIntImpl_integerToString (locale : Locale) (type : IntegerType) {w : Nat} (wide : 7 ≤ w) {value : Int}
    (lower : type.min ≤ value) (upper : value ≤ type.max) :
    ∃ text, integerToString w type value = some text ∧ stringToIntImpl locale type text = some ⟨true, some value⟩ := by
  obtain ⟨text, wrote, denotes, small⟩ := exists_integerToString w type lower upper
  refine ⟨_, wrote, ?_⟩
  obtain ⟨negative, digits, rfl, reading⟩ := @reading_of_denotes locale 10 text type.isSigned value denotes
  rw [stringToIntImpl, toNat_map_ofNat wide small, iteratorRangeToNumber_reading (by decide) reading,
    (inRange_iff type _).mpr ⟨lower, upper⟩, IntegerType.clamp, if_neg (Int.not_lt.mpr upper),
    if_neg (Int.not_lt.mpr lower)]
  rfl

/-- Text to integers and back: no conversion overflows on its way, each returns whether the whole text is a number of its
type and leaves the nearest value to what it has read, and each value survives being written and read. -/
theorem string_number_conversions (locale : Locale) :
    (∀ (w : Nat) (type : IntegerType) (input : List (BitVec w)), ∃ conversion,
      stringToIntImpl locale type input = some conversion ∧
        ConvertsNumber locale type 10 (input.map BitVec.toNat) conversion) ∧
    (∀ (type : IntegerType) (input : List Byte), ∃ conversion, hexStringToNumber locale type input = some conversion ∧
      ConvertsNumber locale type 16 (input.map BitVec.toNat) conversion) ∧
    ∀ (w : Nat) (type : IntegerType) (value : Int), w = 8 ∨ w = 16 → type.min ≤ value → value ≤ type.max →
      ∃ text, integerToString w type value = some text ∧ stringToIntImpl locale type text = some ⟨true, some value⟩ := by
  refine ⟨?_, ?_, ?_⟩
  · exact fun w type input => exists_convertsNumber locale type (by decide) _
  · exact fun type input => exists_convertsNumber locale type (by decide) _
  · intro w type value width lower upper
    exact stringToIntImpl_integerToString locale type (by omega) lower upper

/-- `isspace` in the C locale. -/
def cLocale : Locale where
  isWhitespace c := c = 0x20 || (0x09 ≤ c && c ≤ 0x0d)
  graphic c lower _ := by
    simp only [Bool.or_eq_false_iff, Bool.and_eq_false_iff, decide_eq_false_iff_not]
    omega

/-- A type without a sign has no minus zero, and nothing is written. -/
theorem stringToUint_minusZero : Denotes 10 true [0x2d, 0x30] 0 ∧ IntegerType.uint32.min ≤ 0 ∧ 0 ≤ IntegerType.uint32.max ∧
    stringToUint cLocale ([0x2d, 0x30] : List Byte) = some ⟨false, none⟩ := by
  refine ⟨⟨true, [0x2d], [], [0x30], [0], ⟨rfl, rfl⟩, .inl rfl, rfl, by decide, by decide, rfl⟩, by decide, by decide, ?_⟩
  decide

/-! ### The conversions that the parser uses -/

/-- What a conversion gives a caller that uses the output only where it is valid. -/
def ifValid (converted : Bool × Int) : Option Int := if converted.1 then some converted.2 else none

theorem invokeFrom_eq {type : IntegerType} {base : Nat} {sign : Sign} {limit : Int} {signed : Nat → Int} {room : Nat}
    (keeps : Keeps type base sign limit signed room) {number : Nat} (inside : number ≤ room) (input : List Byte) :
    invokeFrom base sign (signed number) input =
      (baseInvokeFrom type base sign limit false (signed number) (input.map BitVec.toNat)).bind ifValid := by
  induction input generalizing number with
  | nil => rfl
  | cons c rest ih =>
    rw [invokeFrom, List.map_cons, baseInvokeFrom, show charToDigit base c = charToDigitOf base c.toNat from rfl]
    cases converted : charToDigitOf base c.toNat with
    | none => rfl
    | some digit =>
      have checked := keeps.checkBounds number digit (charToDigitOf_lt converted)
      by_cases fits : number * base + digit ≤ room
      · simp only [checked.mpr fits, if_true, Bool.not_true, Bool.and_false, Bool.false_eq_true, if_false, keeps.scale,
          keeps.fits _ (Nat.le_of_add_right_le fits), keeps.increment, keeps.fits _ fits, Option.bind_some]
        exact ih fits
      · have failed : sign.checkBounds (signed number) digit = false :=
          Bool.eq_false_of_not_eq_true fun passed => fits (checked.mp passed)
        simp only [failed, Bool.false_eq_true, if_false, Bool.not_false, Bool.and_self, if_true]
        rfl

theorem getElem?_toNat (input : List Byte) (i : Nat) (letter : Byte) :
    (input.map BitVec.toNat)[i]? = some letter.toNat ↔ input[i]? = some letter := by
  rw [List.getElem?_map, ← Option.map_some, (Option.map_injective BitVec.toNat_injective).eq_iff]

theorem invokeSign_eq {type : IntegerType} {base : Nat} {sign : Sign} {limit : Int} {signed : Nat → Int} {room : Nat}
    (keeps : Keeps type base sign limit signed room) (input : List Byte) :
    invokeSign base sign input = (baseInvoke type base sign limit (input.map BitVec.toNat)).bind ifValid := by
  have prefix_ : (base = 16 ∧ 2 < (input.map BitVec.toNat).length ∧ (input.map BitVec.toNat)[0]? = some 0x30 ∧
      ((input.map BitVec.toNat)[1]? = some 0x78 ∨ (input.map BitVec.toNat)[1]? = some 0x58)) ↔
      (base = 16 ∧ 2 < input.length ∧ input[0]? = some (ascii '0') ∧
        (input[1]? = some (ascii 'x') ∨ input[1]? = some (ascii 'X'))) := by
    rw [List.length_map]
    exact and_congr_right' (and_congr_right' (and_congr (getElem?_toNat input 0 (ascii '0'))
      (or_congr (getElem?_toNat input 1 (ascii 'x')) (getElem?_toNat input 1 (ascii 'X')))))
  rw [invokeSign, baseInvoke]
  by_cases empty : input = []
  · subst empty
    rw [if_neg (by simp)]
    rfl
  · rw [if_neg (mt List.map_eq_nil_iff.mp empty)]
    simp only [prefix_, ← List.map_drop, ← apply_ite (List.map BitVec.toNat)]
    generalize body : (if base = 16 ∧ 2 < input.length ∧ input[0]? = some (ascii '0') ∧
      (input[1]? = some (ascii 'x') ∨ input[1]? = some (ascii 'X')) then input.drop 2 else input) = digits
    have some_ : digits ≠ [] := by
      rw [← body]
      split_ifs with dropped
      · exact List.ne_nil_of_length_pos (by rw [List.length_drop]; omega)
      · exact empty
    obtain ⟨c, rest, rfl⟩ := List.exists_cons_of_ne_nil some_
    simp only [List.map_cons, baseInvokeFrom, show charToDigit base c = charToDigitOf base c.toNat from rfl]
    cases converted : charToDigitOf base c.toNat with
    | none => rfl
    | some digit =>
      have inside : digit ≤ room := (charToDigitOf_lt converted).le.trans keeps.roomy
      have increment : sign.increment digit 0 = signed digit := by
        rw [← keeps.zero, keeps.increment, Nat.zero_add]
      simp only [Bool.not_true, Bool.false_and, Bool.false_eq_true, if_false, if_true, increment, keeps.fits _ inside,
        Option.bind_some]
      exact invokeFrom_eq keeps inside rest

theorem invoke_eq {type : IntegerType} (isSigned : type.isSigned = true) {base : Nat} (small : base ≤ 36) (input : List Byte) :
    invoke (type.traits base) input =
      (iteratorRangeToNumber cLocale type base (input.map BitVec.toNat)).bind fun conversion =>
        if conversion.valid then conversion.output else none := by
  obtain ⟨_, _, keepsPositive⟩ := keeps_positive type small
  obtain ⟨_, _, keepsNegative⟩ := keeps_negative isSigned small
  have same (first : Byte) (letter : Char) : first.toNat = (ascii letter).toNat ↔ first = ascii letter := BitVec.toNat_inj
  have used (converted : Option (Bool × Int)) : (converted.map fun converted => (⟨converted.1, some converted.2⟩ : Conversion)).bind
      (fun conversion => if conversion.valid then conversion.output else none) = converted.bind ifValid := by
    cases converted <;> rfl
  have failed (converted : Option (Bool × Int)) : (converted.map fun converted => (⟨false, some converted.2⟩ : Conversion)).bind
      (fun conversion => if conversion.valid then conversion.output else none) = none := by
    cases converted <;> rfl
  cases input with
  | nil => rfl
  | cons c rest =>
    have blank : isSpace c = cLocale.isWhitespace c.toNat := by
      have space : (0x20 : Byte).toNat = 0x20 := rfl
      have tab : (0x09 : Byte).toNat = 0x09 := rfl
      have carriageReturn : (0x0d : Byte).toNat = 0x0d := rfl
      simp only [isSpace, cLocale, BitVec.le_def, ← BitVec.toNat_inj, space, tab, carriageReturn]
    rw [invoke, iteratorRangeToNumber, List.map_cons, List.head?_cons, Option.any_some, blank]
    cases isBlank : cLocale.isWhitespace c.toNat with
    | true =>
      rw [if_pos rfl]
      simp only [Bool.not_true, Bool.false_and, isSigned, Bool.false_eq_true, if_false]
      split_ifs
      all_goals exact (failed _).symm
    | false =>
      rw [if_neg Bool.false_ne_true, List.dropWhile_cons_of_neg (by rw [isBlank]; exact Bool.false_ne_true)]
      have minus : c.toNat = 0x2d ↔ c = ascii '-' := same c '-'
      have plus : c.toNat = 0x2b ↔ c = ascii '+' := same c '+'
      simp only [List.head?_cons, Option.some.injEq, isSigned, Bool.not_true, Bool.false_eq_true, if_false, List.tail_cons,
        Bool.not_false, Bool.true_and]
      by_cases isMinus : c = ascii '-'
      · rw [if_pos isMinus, if_pos (minus.mpr isMinus), used]
        exact invokeSign_eq keepsNegative rest
      · rw [if_neg isMinus, if_neg (mt minus.mp isMinus), used]
        by_cases isPlus : c = ascii '+'
        · rw [if_pos isPlus, if_pos (plus.mpr isPlus)]
          exact invokeSign_eq keepsPositive rest
        · rw [if_neg isPlus, if_neg (mt plus.mp isPlus)]
          exact invokeSign_eq keepsPositive (c :: rest)

theorem hexStringToInt_iff (input : List Byte) (value : Int) : NumberConversions.hexStringToInt input = some value ↔
    Denotes 16 true (input.map BitVec.toNat) value ∧ -2 ^ 31 ≤ value ∧ value ≤ 2 ^ 31 - 1 := by
  have read : NumberConversions.hexStringToInt input = _ := @invoke_eq .int32 rfl 16 (by decide) input
  obtain ⟨conversion, same, converts⟩ := exists_convertsNumber cLocale .int32 (show 16 ≤ 36 by decide) (input.map BitVec.toNat)
  have lower : IntegerType.int32.min = -2 ^ 31 := rfl
  have upper : IntegerType.int32.max = 2 ^ 31 - 1 := rfl
  rw [read, same, Option.bind_some]
  have valueOf {value : Int} (denotes : Denotes 16 true (input.map BitVec.toNat) value) (atLeast : -2 ^ 31 ≤ value)
      (atMost : value ≤ 2 ^ 31 - 1) : conversion.output = some value := by
    obtain ⟨negative, digits, rfl, reading⟩ := @reading_of_denotes cLocale 16 _ true value denotes
    rw [converts.output [] negative digits [] reading, IntegerType.clamp, if_neg (by omega), if_neg (by omega)]
  constructor
  · intro converted
    have valid : conversion.valid = true := by
      by_contra invalid
      rw [if_neg invalid] at converted
      cases converted
    rw [if_pos valid] at converted
    obtain ⟨other, denotes, atLeast, atMost⟩ := converts.valid.mp valid
    have same := converted.symm.trans (valueOf denotes atLeast atMost)
    rw [Option.some.injEq] at same
    exact same ▸ ⟨denotes, atLeast, atMost⟩
  · rintro ⟨denotes, atLeast, atMost⟩
    rw [if_pos (converts.valid.mpr ⟨value, denotes, atLeast, atMost⟩)]
    exact valueOf denotes atLeast atMost

end Libchrome.Base.Strings
