import Libchrome.Base.Json.ParserStrings
import Mathlib.Data.List.TakeWhile

/-!
# Numbers and literals at their text

`ConsumeNumber` and `ConsumeLiteral` look at the character that follows, and where the text ends they look at the memory
behind it: there a number may go on, and a literal may be complete.
-/

namespace Libchrome.Base.Json
open Library.Bytes Library.Cursor NumberConversions Utf8

variable {D : Type} {p : Parser D} {depth : Nat} {s : State} {c : Byte} {bytes rest : List Byte}

/-! ### Forward moves -/

theorem nextNChars_add (m n : Nat) (s : State) : nextNChars m (nextNChars n s) = nextNChars (n + m) s := by
  rw [nextNChars, nextNChars, nextNChars, Nat.add_assoc, Nat.add_assoc]

theorem nextNChars_nextChar (n : Nat) (s : State) : nextNChars n (nextChar s) = nextNChars (n + 1) s := by
  rw [nextChar, nextNChars_add, Nat.add_comm]

/-- Behind the text all places are alike. -/
theorem At.drop (at_ : At p depth s bytes) (count : Nat) : At p depth (Json.nextNChars count s) (bytes.drop count) where
  index := by rw [nextNChars_index, nextNChars_pos, at_.index]
  ahead := by rw [nextNChars_pos, ← List.drop_drop, at_.ahead]
  depth := at_.depth

theorem At.further (at_ : At p depth s []) : At p depth (Json.nextChar s) [] := at_.drop 1

theorem At.tail (at_ : At p depth s bytes) : At p depth (Json.nextChar s) bytes.tail := by
  rw [← List.drop_one]
  exact at_.drop 1

/-- No line ends within these bytes. -/
def OneLine (bytes : List Byte) : Prop := ∀ c ∈ bytes, isNewline c = false

theorem OneLine.append {front back : List Byte} (first : OneLine front) (second : OneLine back) : OneLine (front ++ back) :=
  List.forall_mem_append.mpr ⟨first, second⟩

theorem OneLine.take_add {m n : Nat} (first : OneLine (bytes.take m)) (second : OneLine ((bytes.drop m).take n)) :
    OneLine (bytes.take (m + n)) := by
  rw [List.take_add]
  exact first.append second

theorem not_isNewline_of_isAsciiDigit (digit : isAsciiDigit c = true) : isNewline c = false := by
  rw [← Bool.not_eq_true]
  intro newline
  rw [isNewline, Bool.or_eq_true, decide_eq_true_eq, decide_eq_true_eq] at newline
  rcases newline with rfl | rfl
  · exact absurd digit (by decide)
  · exact absurd digit (by decide)

variable (p) in
/-- From `bytes` on the parser moved forward in its line, past what is to be read there unless it failed. -/
def Past (s : State) (bytes : List Byte) (past : Option (List Byte)) (result : Bool × State) : Prop :=
  ∃ count, result.2 = nextNChars count s ∧ OneLine (bytes.take count) ∧
    if result.1 then past = some (bytes.drop count) ∧ count ≤ bytes.length else past = none

/-! ### Integers -/

theorem readDigits_eq {fuel : Nat} (enough : p.source.text.length - s.pos ≤ fuel) (at_ : At p depth s bytes) (len : Nat) :
    readDigits p fuel (current p s) len s =
      (len + (bytes.takeWhile isAsciiDigit).length, nextNChars (bytes.takeWhile isAsciiDigit).length s) := by
  induction fuel generalizing s bytes len with
  | zero =>
    have none_ : bytes = [] := List.length_eq_zero_iff.mp (by rw [at_.length]; omega)
    subst none_
    rfl
  | succ fuel ih =>
    rw [readDigits]
    cases bytes with
    | nil =>
      rw [if_neg (by rw [at_.not_canConsume]; simp)]
      rfl
    | cons c rest =>
      rw [at_.canConsume_one, at_.current]
      by_cases digit : isAsciiDigit c = true
      · have inside := at_.inside
        rw [if_pos ⟨rfl, digit⟩, List.takeWhile_cons_of_pos digit, List.length_cons, ← nextNChars_nextChar]
        have others := ih (by rw [nextChar_pos]; omega) at_.nextChar (len + 1)
        rw [others]
        congr 1
        omega
      · rw [if_neg (fun both => digit both.2), List.takeWhile_cons_of_neg digit]
        rfl

theorem readInt_eq (at_ : At p depth s bytes) (allowLeadingZeros : Bool) : readInt p allowLeadingZeros s =
    ((pastInt allowLeadingZeros bytes).isSome, nextNChars (bytes.takeWhile isAsciiDigit).length s) := by
  rw [readInt, readDigits_eq (Nat.le_refl _) at_]
  dsimp only
  rw [Nat.zero_add, pastInt]
  congr 1
  cases bytes with
  | nil => rfl
  | cons c rest =>
    rw [at_.current]
    by_cases digit : isAsciiDigit c = true
    · rw [List.takeWhile_cons_of_pos digit, List.head?_cons]
      rw [Bool.eq_iff_iff, Option.isSome_ite]
      simp only [ne_eq, Option.some.injEq, Bool.and_eq_true, Bool.or_eq_true, Bool.not_eq_true', decide_eq_true_eq,
        Bool.and_eq_false_iff, decide_eq_false_iff_not, not_and_or]
    · rw [List.takeWhile_cons_of_neg digit]
      rfl

theorem drop_takeWhile (bytes : List Byte) :
    bytes.drop (bytes.takeWhile isAsciiDigit).length = bytes.dropWhile isAsciiDigit := by
  have split := congrArg (List.drop (bytes.takeWhile isAsciiDigit).length)
    (List.takeWhile_append_dropWhile (p := isAsciiDigit) (l := bytes))
  rw [List.drop_left] at split
  exact split.symm

theorem take_takeWhile (bytes : List Byte) :
    bytes.take (bytes.takeWhile isAsciiDigit).length = bytes.takeWhile isAsciiDigit := by
  have split := congrArg (List.take (bytes.takeWhile isAsciiDigit).length)
    (List.takeWhile_append_dropWhile (p := isAsciiDigit) (l := bytes))
  rw [List.take_left] at split
  exact split.symm

theorem readInt_past (at_ : At p depth s bytes) (allowLeadingZeros : Bool) :
    Past s bytes (pastInt allowLeadingZeros bytes) (readInt p allowLeadingZeros s) := by
  rw [readInt_eq at_]
  refine ⟨_, rfl, ?_, ?_⟩
  · rw [take_takeWhile]
    exact fun c member => not_isNewline_of_isAsciiDigit (List.mem_takeWhile_imp member)
  · rw [drop_takeWhile]
    unfold pastInt
    dsimp only
    split
    next => exact ⟨rfl, (List.takeWhile_sublist _).length_le⟩
    next => rfl

theorem readInt_end (at_ : At p depth s []) (allowLeadingZeros : Bool) : readInt p allowLeadingZeros s = (false, s) := by
  rw [readInt_eq at_]
  rfl

/-! ### Parts of a number -/

section Parts

variable {past : Option (List Byte)}

/-- A character is passed first. -/
theorem Past.after {result : Bool × State} (inLine : isNewline c = false) (others : Past (nextChar s) rest past result) :
    Past s (c :: rest) past result := by
  obtain ⟨count, moved, plain, outcome⟩ := others
  refine ⟨count + 1, by rw [moved, nextNChars_nextChar], ?_, ?_⟩
  · rw [List.take_succ_cons]
    exact List.forall_mem_cons.mpr ⟨inLine, plain⟩
  · rw [List.drop_succ_cons, List.length_cons]
    split at outcome
    next success =>
      rw [if_pos success]
      exact ⟨outcome.1, Nat.succ_le_succ outcome.2⟩
    next failure =>
      rw [if_neg failure]
      exact outcome

/-- What is passed first is passed. -/
theorem Past.trans {result : Bool × State} {s' : State} {middle : List Byte} (first : Past s bytes (some middle) (true, s'))
    (second : Past s' middle past result) : Past s bytes past result := by
  obtain ⟨count, moved, plain, there, room⟩ := first
  obtain ⟨further, movedOn, plainOn, outcome⟩ := second
  obtain rfl := Option.some.inj there
  refine ⟨count + further, ?_, plain.take_add plainOn, ?_⟩
  · dsimp only at moved
    rw [movedOn, moved, nextNChars_add]
  · rw [List.drop_drop, List.length_drop] at outcome
    split at outcome
    next success =>
      rw [if_pos success]
      exact ⟨outcome.1, by omega⟩
    next failure =>
      rw [if_neg failure]
      exact outcome

theorem At.passed {s' : State} (at_ : At p depth s bytes) (passed : Past s bytes (some rest) (true, s')) :
    At p depth s' rest := by
  obtain ⟨count, moved, _, there, _⟩ := passed
  dsimp only at moved
  rw [moved, Option.some.inj there]
  exact at_.drop count

/-- Within the text the parser stays within it. -/
theorem Past.within {s' : State} (passed : Past s bytes (some rest) (true, s')) (at_ : At p depth s bytes)
    (within : s.pos ≤ p.source.text.length) : s'.pos ≤ p.source.text.length := by
  obtain ⟨count, moved, _, _, room⟩ := passed
  dsimp only at moved
  have length := at_.length
  rw [moved, nextNChars_pos]
  omega

theorem past_here (s : State) (bytes : List Byte) : Past s bytes (some bytes) (true, s) :=
  ⟨0, rfl, List.forall_mem_nil _, rfl, Nat.zero_le _⟩

theorem past_failed (s : State) (bytes : List Byte) : Past s bytes none (false, s) :=
  ⟨0, rfl, List.forall_mem_nil _, rfl⟩

theorem pastMinus_past (at_ : At p depth s bytes) (some_ : bytes ≠ []) :
    Past s bytes (some (pastMinus bytes)) (true, if current p s = ascii '-' then nextChar s else s) := by
  cases bytes with
  | nil => exact absurd rfl some_
  | cons c rest =>
    rw [at_.current, pastMinus, List.head?_cons, List.tail_cons]
    simp only [Option.some.injEq]
    by_cases minus : c = ascii '-'
    · rw [if_pos minus, if_pos minus]
      exact (past_here (nextChar s) rest).after (by rw [minus]; decide)
    · rw [if_neg minus, if_neg minus]
      exact past_here s (c :: rest)

variable (p) in
/-- As the parser sees it, a point behind the text begins a fraction. -/
def pastFractionIn (bytes : List Byte) : Option (List Byte) :=
  if bytes = [] ∧ p.source.beyond 0 = ascii '.' then none else pastFraction bytes

variable (p) in
/-- As the parser sees it, a letter behind the text begins an exponent. -/
def pastExponentIn (bytes : List Byte) : Option (List Byte) :=
  if bytes = [] ∧ (p.source.beyond 0 = ascii 'e' ∨ p.source.beyond 0 = ascii 'E') then none else pastExponent bytes

theorem At.current_end (at_ : At p depth s []) (within : s.pos ≤ p.source.text.length) :
    Json.current p s = p.source.beyond 0 := by
  rw [Json.current, Buffer.eq_length_of_drop at_.ahead within, Buffer.read_end]

theorem readFraction_past (at_ : At p depth s bytes) (within : s.pos ≤ p.source.text.length) :
    Past s bytes (pastFractionIn p bytes) (readFraction p s) := by
  rw [readFraction, pastFractionIn]
  cases bytes with
  | nil =>
    rw [at_.current_end within, at_.not_canConsume]
    by_cases point : p.source.beyond 0 = ascii '.'
    · rw [if_pos point, if_pos Bool.false_ne_true, if_pos ⟨rfl, point⟩]
      exact past_failed s []
    · rw [if_neg point, if_neg (fun both => point both.2)]
      exact past_here s []
  | cons c rest =>
    rw [at_.current, at_.canConsume_one, if_neg (fun both => List.cons_ne_nil c rest both.1), pastFraction, List.head?_cons,
      List.tail_cons]
    simp only [Option.some.injEq]
    by_cases point : c = ascii '.'
    · rw [if_pos point, if_pos point, if_neg (not_not.mpr trivial)]
      exact (readInt_past at_.nextChar true).after (by rw [point]; decide)
    · rw [if_neg point, if_neg point]
      exact past_here s (c :: rest)

theorem pastSign_past (at_ : At p depth s bytes) (some_ : bytes ≠ []) : Past s bytes (some (pastSign bytes))
    (true, if current p s = ascii '-' ∨ current p s = ascii '+' then nextChar s else s) := by
  cases bytes with
  | nil => exact absurd rfl some_
  | cons c rest =>
    rw [at_.current, pastSign, List.head?_cons, List.tail_cons]
    simp only [Option.some.injEq]
    by_cases sign : c = ascii '-' ∨ c = ascii '+'
    · rw [if_pos sign, if_pos sign]
      refine (past_here (nextChar s) rest).after ?_
      rcases sign with rfl | rfl
      · decide
      · decide
    · rw [if_neg sign, if_neg sign]
      exact past_here s (c :: rest)

theorem readExponent_past (at_ : At p depth s bytes) (within : s.pos ≤ p.source.text.length) :
    Past s bytes (pastExponentIn p bytes) (readExponent p s) := by
  rw [readExponent, pastExponentIn]
  dsimp only
  cases bytes with
  | nil =>
    rw [at_.current_end within]
    by_cases letter : p.source.beyond 0 = ascii 'e' ∨ p.source.beyond 0 = ascii 'E'
    · rw [if_pos letter, if_pos ⟨rfl, letter⟩]
      split
      next =>
        rw [readInt_end at_.further.further]
        exact ⟨2, rfl, List.forall_mem_nil _, rfl⟩
      next =>
        rw [readInt_end at_.further]
        exact ⟨1, rfl, List.forall_mem_nil _, rfl⟩
    · rw [if_neg letter, if_neg (fun both => letter both.2)]
      exact past_here s []
  | cons c rest =>
    rw [at_.current, if_neg (fun both => List.cons_ne_nil c rest both.1), pastExponent, List.head?_cons, List.tail_cons]
    simp only [Option.some.injEq]
    by_cases letter : c = ascii 'e' ∨ c = ascii 'E'
    · rw [if_pos letter, if_pos letter]
      have inLine : isNewline c = false := by
        rcases letter with rfl | rfl
        · decide
        · decide
      refine Past.after inLine ?_
      cases rest with
      | nil =>
        split
        next =>
          rw [readInt_end at_.nextChar.further]
          exact ⟨1, rfl, List.forall_mem_nil _, rfl⟩
        next =>
          rw [readInt_end at_.nextChar]
          exact past_failed _ []
      | cons next others =>
        have sign := pastSign_past at_.nextChar (List.cons_ne_nil next others)
        exact sign.trans (readInt_past (at_.nextChar.passed sign) true)
    · rw [if_neg letter, if_neg letter]
      exact past_here s (c :: rest)

end Parts

/-! ### Whole numbers -/

theorem pastInt_shorter {allowLeadingZeros : Bool} (passed : pastInt allowLeadingZeros bytes = some rest) :
    rest.length < bytes.length := by
  unfold pastInt at passed
  dsimp only at passed
  split at passed
  next digits =>
    obtain rfl := Option.some.inj passed
    have lengths := congrArg List.length (List.takeWhile_append_dropWhile (p := isAsciiDigit) (l := bytes))
    rw [List.length_append] at lengths
    have some_ := digits.1
    omega
  next => cases passed

theorem pastMinus_le (bytes : List Byte) : (pastMinus bytes).length ≤ bytes.length := by
  unfold pastMinus
  split
  next => exact (List.tail_sublist _).length_le
  next => exact Nat.le_refl _

theorem pastSign_le (bytes : List Byte) : (pastSign bytes).length ≤ bytes.length := by
  unfold pastSign
  split
  next => exact (List.tail_sublist _).length_le
  next => exact Nat.le_refl _

theorem pastFraction_le (passed : pastFraction bytes = some rest) : rest.length ≤ bytes.length := by
  unfold pastFraction at passed
  split at passed
  next => exact (pastInt_shorter passed).le.trans (List.tail_sublist _).length_le
  next =>
    obtain rfl := Option.some.inj passed
    exact Nat.le_refl _

theorem pastExponent_le (passed : pastExponent bytes = some rest) : rest.length ≤ bytes.length := by
  unfold pastExponent at passed
  split at passed
  next => exact ((pastInt_shorter passed).le.trans (pastSign_le _)).trans (List.tail_sublist _).length_le
  next =>
    obtain rfl := Option.some.inj passed
    exact Nat.le_refl _

/-- A number takes a byte at least. -/
theorem pastNumber_shorter (passed : pastNumber bytes = some rest) : rest.length < bytes.length := by
  obtain ⟨front, int, others⟩ := Option.bind_eq_some_iff.mp passed
  obtain ⟨back, fraction, exponent⟩ := Option.bind_eq_some_iff.mp others
  have first := (pastInt_shorter int).trans_le (pastMinus_le bytes)
  exact ((pastExponent_le exponent).trans (pastFraction_le fraction)).trans_lt first

variable (p) in
/-- Past a number, as the parser sees it. -/
def pastNumberIn (bytes : List Byte) : Option (List Byte) :=
  (pastInt false (pastMinus bytes)).bind fun rest => (pastFractionIn p rest).bind (pastExponentIn p)

theorem pastNumber_of_pastNumberIn (passed : pastNumberIn p bytes = some rest) : pastNumber bytes = some rest := by
  obtain ⟨front, int, others⟩ := Option.bind_eq_some_iff.mp passed
  obtain ⟨back, fraction, exponent⟩ := Option.bind_eq_some_iff.mp others
  rw [pastFractionIn] at fraction
  rw [pastExponentIn] at exponent
  split at fraction
  next => cases fraction
  next =>
    split at exponent
    next => cases exponent
    next => rw [pastNumber, int, Option.bind_some, fraction, Option.bind_some, exponent]

/-- Only at the end of the text the parser sees a number where there is none any more. -/
theorem pastNumber_end (passed : pastNumber bytes = some rest) (amiss : pastNumberIn p bytes = none) : rest = [] := by
  obtain ⟨front, int, others⟩ := Option.bind_eq_some_iff.mp passed
  obtain ⟨back, fraction, exponent⟩ := Option.bind_eq_some_iff.mp others
  rw [pastNumberIn, int, Option.bind_some, pastFractionIn] at amiss
  split at amiss
  next ends =>
    rw [ends.1] at fraction
    obtain rfl := Option.some.inj fraction
    exact (Option.some.inj exponent).symm
  next =>
    rw [fraction, Option.bind_some, pastExponentIn] at amiss
    split at amiss
    next ends =>
      rw [ends.1] at exponent
      exact (Option.some.inj exponent).symm
    next =>
      rw [exponent] at amiss
      cases amiss

variable (p) in
/-- The byte behind the text goes on with a number that ends with the text. -/
def goesOn (bytes : List Byte) : Bool := (pastNumber bytes).isSome && (pastNumberIn p bytes).isNone

variable (p) in
/-- A number with nothing amiss but that it is no finite double. -/
def unreadNumber (bytes : List Byte) : Bool :=
  match pastNumberIn p bytes with
  | none => false
  | some rest =>
    endsNumber (tokenAt (skip rest).rest) &&
      (numberValue p.doubles (bytes.take (bytes.length - rest.length))).isNone


theorem Past.fails {past : Option (List Byte)} {s' : State} (passed : Past s bytes past (false, s')) : past = none := by
  obtain ⟨_, _, _, fails⟩ := passed
  exact fails

theorem Past.succeeds {past : Option (List Byte)} {s' : State} (passed : Past s bytes past (true, s')) :
    ∃ rest, past = some rest := by
  obtain ⟨_, _, _, there, _⟩ := passed
  exact ⟨_, there⟩

theorem consumeNumber_eq (at_ : At p depth s bytes) (some_ : bytes ≠ []) :
    (∃ s', Past s bytes (pastNumberIn p bytes) (false, s') ∧ consumeNumber p s = .null (reportError .syntaxError 1 s')) ∨
      ∃ rest s', Past s bytes (some rest) (true, s') ∧ pastNumberIn p bytes = some rest ∧ consumeNumber p s =
        if ¬ endsNumber (getNextToken p s').1 then .null (reportError .syntaxError 1 (getNextToken p s').2)
        else
          let back := { (getNextToken p s').2 with pos := s'.pos - 1, index := s'.index - 1 }
          match numberValue p.doubles (slice p.source.read s.pos (s'.index - s.index)) with
          | some value => .value value back
          | none => .null back := by
  have within : s.pos ≤ p.source.text.length := by
    obtain ⟨c, rest, rfl⟩ := List.exists_cons_of_ne_nil some_
    exact at_.inside.le
  have minus := pastMinus_past at_ some_
  have start := at_.passed minus
  have int := readInt_past start false
  rw [consumeNumber, pastNumberIn]
  dsimp only
  generalize (if current p s = ascii '-' then nextChar s else s) = signed at minus start int ⊢
  rcases read : readInt p false signed with ⟨_ | _, afterInt⟩ <;> rw [read] at int
  · left
    refine ⟨afterInt, ?_, rfl⟩
    have fails := int.fails
    rw [fails]
    rw [fails] at int
    exact minus.trans int
  · obtain ⟨behindInt, isInt⟩ := int.succeeds
    rw [isInt] at int ⊢
    have toInt := minus.trans int
    have fraction := readFraction_past (start.passed int) (int.within start (minus.within at_ within))
    rw [Option.bind_some]
    dsimp only
    rcases read : readFraction p afterInt with ⟨_ | _, afterFraction⟩ <;> rw [read] at fraction
    · left
      refine ⟨afterFraction, ?_, rfl⟩
      have fails := fraction.fails
      rw [fails]
      rw [fails] at fraction
      exact toInt.trans fraction
    · obtain ⟨behindFraction, isFraction⟩ := fraction.succeeds
      rw [isFraction] at fraction ⊢
      have toFraction := toInt.trans fraction
      have exponent := readExponent_past (at_.passed toFraction) (toFraction.within at_ within)
      rw [Option.bind_some]
      dsimp only
      rcases read : readExponent p afterFraction with ⟨_ | _, afterExponent⟩ <;> rw [read] at exponent
      · left
        refine ⟨afterExponent, ?_, rfl⟩
        have fails := exponent.fails
        rw [fails]
        rw [fails] at exponent
        exact toFraction.trans exponent
      · obtain ⟨rest, isExponent⟩ := exponent.succeeds
        rw [isExponent] at exponent ⊢
        right
        exact ⟨rest, afterExponent, toFraction.trans exponent, rfl, rfl⟩

/-- The text of a number that the parser has passed. -/
theorem slice_passed {s' : State} (at_ : At p depth s bytes) (passed : Past s bytes (some rest) (true, s')) :
    slice p.source.read s.pos (s'.index - s.index) = bytes.take (bytes.length - rest.length) := by
  obtain ⟨count, moved, _, there, room⟩ := passed
  dsimp only at moved
  rw [Option.some.inj there, moved, nextNChars_index, Nat.add_sub_cancel_left, List.length_drop, Nat.sub_sub_self room]
  exact slice_eq_take (holds_of_drop at_.ahead) room

/-- On the last byte of a number that the parser has passed. -/
theorem behind_passed {s' : State} (at_ : At p depth s bytes) (passed : Past s bytes (some rest) (true, s'))
    (shorter : rest.length < bytes.length) : Behind p depth { s' with pos := s'.pos - 1, index := s'.index - 1 } rest := by
  have there := at_.passed passed
  have lengths := at_.length
  have remaining := there.length
  obtain ⟨count, moved, _, same, room⟩ := passed
  dsimp only at moved
  have counted := congrArg List.length (Option.some.inj same)
  rw [List.length_drop] at counted
  have pos : s'.pos = s.pos + count := by rw [moved, nextNChars_pos]
  refine ⟨congrArg (· - 1) there.index, ?_, ?_, there.depth⟩
  · show s'.pos - 1 < _
    omega
  · show p.source.text.drop (s'.pos - 1 + 1) = rest
    rw [Nat.sub_add_cancel (by omega)]
    exact there.ahead

/-! ### Literals -/

/-- The character that a token of one character is. -/
def characterOf : Token → Option Byte
  | .objectBegin => some (ascii '\x7b')
  | .arrayBegin => some (ascii '[')
  | .string => some (ascii '"')
  | .boolTrue => some (ascii 't')
  | .boolFalse => some (ascii 'f')
  | .null => some (ascii 'n')
  | _ => none

theorem eq_of_tokenOf {token : Token} {letter : Byte} (begins : tokenOf c = token) (one : characterOf token = some letter) :
    c = letter := by
  unfold tokenOf at begins
  repeat' split at begins
  all_goals
    subst begins
    simp only [characterOf, Option.some.injEq, reduceCtorEq] at one
  all_goals
    rw [← one]
    assumption

variable (p) in
/-- The text holds this word, or all of it but the last character, which is the byte behind the text. -/
def wordAhead (word bytes : List Byte) : Bool :=
  word.length ≤ bytes.length + 1 && (bytes ++ [p.source.beyond 0]).take word.length = word

theorem consumeWord_eq (at_ : At p depth s bytes) (within : s.pos ≤ p.source.text.length) {word : List Byte}
    (some_ : word ≠ []) (result : Value D) : consumeWord p word result s =
      if wordAhead p word bytes then .value result (nextNChars (word.length - 1) s)
      else .null (reportError .syntaxError 1 s) := by
  have length := at_.length
  have positive := List.length_pos_iff.mpr some_
  have holds : Holds p.source.read s.pos (bytes ++ [p.source.beyond 0]) := by
    intro k inside
    rw [List.length_append, List.length_singleton] at inside
    by_cases ahead : k < bytes.length
    · rw [List.getElem_append_left ahead]
      exact holds_of_drop at_.ahead k ahead
    · have last : k = bytes.length := by omega
      subst last
      rw [List.getElem_concat_length rfl, length, Nat.add_sub_cancel' within, Buffer.read_end]
  have room : canConsume p (word.length - 1) s = true ↔ word.length ≤ bytes.length + 1 := by
    rw [canConsume_iff]
    omega
  rw [consumeWord]
  by_cases fits : word.length ≤ bytes.length + 1
  · have same : slice p.source.read s.pos word.length = (bytes ++ [p.source.beyond 0]).take word.length :=
      slice_eq_take holds (by rw [List.length_append, List.length_singleton]; exact fits)
    rw [stringsAreEqual, same, room.mpr fits, wordAhead, decide_eq_true fits, Bool.true_and]
    simp only [not_true_eq_false, false_or, decide_eq_true_eq, ite_not]
  · rw [if_pos (Or.inl (mt room.mp fits)), wordAhead, decide_eq_false fits, Bool.false_and, if_neg Bool.false_ne_true]

theorem consumeLiteral_eq (at_ : At p depth s (c :: rest)) {token : Token} (begins : tokenOf c = token)
    (literal : token = .boolTrue ∨ token = .boolFalse ∨ token = .null) : consumeLiteral p s =
      if wordAhead p (wordOf token) (c :: rest) then .value (literalOf token) (nextNChars ((wordOf token).length - 1) s)
      else .null (reportError .syntaxError 1 s) := by
  rw [consumeLiteral, at_.current]
  rcases literal with rfl | rfl | rfl
  all_goals
    obtain rfl := eq_of_tokenOf begins rfl
    exact consumeWord_eq at_ at_.inside.le (by decide) _

end Libchrome.Base.Json
