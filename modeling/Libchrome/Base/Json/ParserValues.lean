import Libchrome.Base.Json.ParserNumbers
import Libchrome.Base.Json.ParserStringLoop

/-!
# Values at their text

`ParseToken` makes of the text ahead what its reading makes of it, and stops on the last byte of the value. Only where the
text ends may the byte behind it make a difference.
-/

namespace Libchrome.Base.Json
open Library.Bytes Library.Cursor NumberConversions Utf8

variable {D : Type} {p : Parser D} {depth : Nat} {s : State} {c : Byte} {bytes rest : List Byte} {α γ : Type}

/-! ### Reading on -/

theorem skipFrom_le (blank : Blank) (bytes : List Byte) : (skipFrom blank bytes).rest.length ≤ bytes.length := by
  fun_induction skipFrom blank bytes
  all_goals first | exact Nat.le_refl _ | exact Nat.le_succ_of_le ‹_›

theorem skip_le (bytes : List Byte) : (skip bytes).rest.length ≤ bytes.length := skipFrom_le .between bytes

variable {allowTrailingCommas : Bool}

theorem readSeparator_le {close : Token} {gap : Read Unit}
    (read : readSeparator allowTrailingCommas close bytes = some gap) : gap.rest.length ≤ bytes.length := by
  have first := skip_le bytes
  unfold readSeparator at read
  dsimp only at read
  split at read
  next =>
    have second := skip_le (skip bytes).rest.tail
    rw [List.length_tail] at second
    split at read
    next => cases read
    next =>
      obtain rfl := Option.some.inj read
      dsimp only
      omega
  next =>
    split at read
    next =>
      obtain rfl := Option.some.inj read
      exact first
    next => cases read

variable {read : Read (List Byte)}

theorem readStringFrom_shorter {fuel : Nat} (closed : readStringFrom fuel bytes = .closed read) :
    read.rest.length < bytes.length := by
  induction fuel generalizing bytes read with
  | zero =>
    cases bytes with
    | nil => cases closed
    | cons => cases closed
  | succ fuel ih =>
    cases bytes with
    | nil => cases closed
    | cons c rest =>
      rw [readStringFrom] at closed
      split at closed
      next =>
        cases closed
        exact Nat.lt_succ_self _
      next =>
        cases isRead : readCharacter (c :: rest) with
        | none =>
          rw [isRead] at closed
          cases closed
        | some front =>
          have fewer := readCharacter_shorter (List.cons_ne_nil c rest) isRead
          rw [isRead] at closed
          dsimp only at closed
          cases others : readStringFrom fuel front.rest with
          | closed back =>
            rw [others] at closed
            cases closed
            exact (ih others).trans fewer
          | runsOut =>
            rw [others] at closed
            cases closed
          | malformed =>
            rw [others] at closed
            cases closed

theorem readQuoted_shorter (closed : readQuoted bytes = .closed read) : read.rest.length < bytes.length := by
  cases bytes with
  | nil => cases closed
  | cons quote rest => exact (readStringFrom_shorter closed).trans (Nat.lt_succ_self _)

theorem readQuoted_of_readString (isRead : readString bytes = some read) : readQuoted bytes = .closed read := by
  rw [readString] at isRead
  split at isRead
  next closed =>
    obtain rfl := Option.some.inj isRead
    exact closed
  next => cases isRead

/-- A reading takes a byte at least. -/
def Advances (readOne : List Byte → Option (Read α)) : Prop :=
  ∀ bytes one, readOne bytes = some one → one.rest.length < bytes.length

theorem readString_advances : Advances readString :=
  fun _ _ isRead => readQuoted_shorter (readQuoted_of_readString isRead)

theorem Advances.map {β : Type} {readOne : List Byte → Option (Read α)} (advances : Advances readOne) (f : α → β) :
    Advances fun bytes => (readOne bytes).map (Read.map f) := by
  intro bytes one isRead
  obtain ⟨inner, first, rfl⟩ := Option.map_eq_some_iff.mp isRead
  exact advances bytes inner first

theorem readNumber_advances (doubles : Doubles D) : Advances (readNumber doubles) := by
  intro bytes one isRead
  rw [readNumber] at isRead
  cases passed : pastNumber bytes with
  | none =>
    rw [passed] at isRead
    cases isRead
  | some rest =>
    rw [passed] at isRead
    dsimp only at isRead
    split at isRead
    next =>
      obtain ⟨value, _, rfl⟩ := Option.map_eq_some_iff.mp isRead
      exact pastNumber_shorter passed
    next => cases isRead

theorem readWord_advances {word : List Byte} (some_ : word ≠ []) (value : Value D) : Advances (readWord word value) := by
  intro bytes one isRead
  rw [readWord] at isRead
  split at isRead
  next whole =>
    obtain rfl := Option.some.inj isRead
    have length := congrArg List.length whole
    have positive := List.length_pos_iff.mpr some_
    rw [List.length_take] at length
    rw [List.length_drop]
    omega
  next => cases isRead

theorem readScalar_advances (doubles : Doubles D) : Advances (readScalar doubles) := by
  intro bytes one isRead
  rw [readScalar] at isRead
  split at isRead
  next => exact readString_advances.map _ bytes one isRead
  next => exact readNumber_advances doubles bytes one isRead
  next token => exact readWord_advances (by rw [token]; decide) _ bytes one isRead
  next token => exact readWord_advances (by rw [token]; decide) _ bytes one isRead
  next token => exact readWord_advances (by rw [token]; decide) _ bytes one isRead
  next => cases isRead

theorem readElements_le {close : Token} {readOne : List Byte → Option (Read α)} {fuel : Nat} {read : Read (List α)}
    (advances : Advances readOne) (isRead : readElements allowTrailingCommas close readOne fuel bytes = some read) :
    read.rest.length ≤ bytes.length := by
  induction fuel generalizing bytes read with
  | zero => cases isRead
  | succ fuel ih =>
    rw [readElements] at isRead
    split at isRead
    next =>
      obtain rfl := Option.some.inj isRead
      exact (List.tail_sublist bytes).length_le
    next =>
      cases first : readOne bytes with
      | none =>
        rw [first] at isRead
        cases isRead
      | some one =>
        rw [first] at isRead
        dsimp only at isRead
        cases separator : readSeparator allowTrailingCommas close one.rest with
        | none =>
          rw [separator] at isRead
          cases isRead
        | some gap =>
          rw [separator] at isRead
          obtain ⟨others, isRest, rfl⟩ := Option.map_eq_some_iff.mp isRead
          have fewer := advances bytes one first
          have further := readSeparator_le separator
          have last := ih isRest
          dsimp only
          omega

theorem readContainer_advances {close : Token} {readOne : List Byte → Option (Read α)} (advances : Advances readOne) :
    ∀ c rest one, readContainer allowTrailingCommas close readOne (c :: rest) = some one →
      one.rest.length < (c :: rest).length := by
  intro c rest one isRead
  obtain ⟨elements, areRead, rfl⟩ := Option.map_eq_some_iff.mp isRead
  exact Nat.lt_succ_of_le ((readElements_le advances areRead).trans (skip_le rest))

theorem readEntry_advances {readOne : List Byte → Option (Read (Value D))} (advances : Advances readOne) :
    Advances (readEntry readOne) := by
  intro bytes one isRead
  rw [readEntry] at isRead
  split at isRead
  next => cases isRead
  next =>
    cases isKey : readString bytes with
    | none =>
      rw [isKey] at isRead
      cases isRead
    | some key =>
      rw [isKey] at isRead
      dsimp only at isRead
      split at isRead
      next => cases isRead
      next =>
        obtain ⟨value, isValue, rfl⟩ := Option.map_eq_some_iff.mp isRead
        have fewer := readString_advances bytes key isKey
        have first := skip_le key.rest
        have second := skip_le (skip key.rest).rest.tail
        have last := advances _ value isValue
        rw [List.length_tail] at second
        dsimp only
        omega

variable {token : Token}

theorem tokenAt_ne_nil (begins : tokenAt bytes = token) (more : token ≠ .endOfInput) : bytes ≠ [] := by
  rintro rfl
  exact more begins.symm

/-- A token that stands for a character is at its character. -/
theorem exists_rest_of_tokenAt {letter : Byte} (begins : tokenAt bytes = token)
    (one : characterOf token = some letter) : ∃ rest, bytes = letter :: rest := by
  cases bytes with
  | nil =>
    subst begins
    cases one
  | cons c rest => exact ⟨rest, congrArg (· :: rest) (eq_of_tokenOf begins one)⟩

theorem readValue_advances (doubles : Doubles D) (allowTrailingCommas : Bool) (levels : Nat) :
    Advances (readValue doubles allowTrailingCommas levels) := by
  induction levels with
  | zero =>
    intro bytes one isRead
    exact readScalar_advances doubles bytes one isRead
  | succ levels ih =>
    intro bytes one isRead
    rw [readValue] at isRead
    split at isRead
    next begins =>
      obtain ⟨c, rest, rfl⟩ := List.exists_cons_of_ne_nil (tokenAt_ne_nil begins (by decide))
      obtain ⟨entries, areRead, rfl⟩ := Option.map_eq_some_iff.mp isRead
      exact readContainer_advances (readEntry_advances ih) c rest entries areRead
    next begins =>
      obtain ⟨c, rest, rfl⟩ := List.exists_cons_of_ne_nil (tokenAt_ne_nil begins (by decide))
      obtain ⟨items, areRead, rfl⟩ := Option.map_eq_some_iff.mp isRead
      exact readContainer_advances ih c rest items areRead
    next => exact readScalar_advances doubles bytes one isRead

/-! ### What follows a reading -/

variable (p) in
/-- The parser stops on the byte behind the text, which ended a value. -/
structure Ended (depth : Nat) (s : State) : Prop where
  index : s.index = s.pos
  pos : s.pos = p.source.text.length
  depth : s.stackDepth = depth

variable (p) in
/-- What came of a reading: the parser is on the last byte of its value, or it failed. Where the text ends within the value,
the byte behind it may end the value (`cut`), or go on with it (`open_`). -/
def Follows (depth : Nat) (cut open_ : Prop) (reading : Option (Read α)) : Outcome α → Prop
  | .value result s =>
    (¬ cut ∧ ∃ slips rest, reading = some ⟨result, slips, rest⟩ ∧ Behind p depth s rest) ∨
      (cut ∧ reading = none ∧ Ended p depth s)
  | .null _ => ¬ cut ∧ (reading = none ∨ open_ ∧ ∃ value slips, reading = some ⟨value, slips, []⟩)
  | .unfinished => False

variable (p) in
/-- Whether the text ends within the string or literal ahead and the byte behind it ends that. -/
def cutAt (bytes : List Byte) : Bool :=
  match tokenAt bytes with
  | .string =>
    (match readQuoted bytes with
      | .runsOut => true
      | _ => false) && !bytes.tail.isEmpty && p.source.beyond 0 = ascii '"'
  | .boolTrue | .boolFalse | .null => bytes ++ [p.source.beyond 0] = wordOf (tokenAt bytes)
  | _ => false

variable (p) in
/-- Whether the text ends with the number ahead, and the byte behind it goes on with that. -/
def openAt (bytes : List Byte) : Bool := tokenAt bytes = .number && goesOn p bytes

/-- A piece of the text holds what a copy holds. -/
theorem consumeString_eq (p : Parser D) (s : State) : consumeString p s =
    match consumeStringRaw p s with
    | (none, s) => .null s
    | (some string, s) => .value (.string (string.asString p.source)) s := by
  rw [consumeString]
  rcases consumeStringRaw p s with ⟨_ | string, s'⟩
  · rfl
  · dsimp only
    split
    next piece =>
      have noCopy := Option.isNone_iff_eq_none.mp piece.1
      simp only [StringBuilder.asStringPiece, StringBuilder.asString, StringBuilder.convert, noCopy, Option.getD_some]
    next => rfl

theorem cutAt_string (begins : tokenAt bytes = .string) : cutAt p bytes = true ↔
    readQuoted bytes = .runsOut ∧ bytes.tail ≠ [] ∧ p.source.beyond 0 = ascii '"' := by
  rw [cutAt, begins]
  dsimp only
  cases readQuoted bytes with
  | closed => simp
  | runsOut => simp
  | malformed => simp

theorem consumeString_follows (at_ : At p depth s bytes) (begins : tokenAt bytes = .string) :
    Follows p depth (cutAt p bytes = true) (openAt p bytes = true) ((readString bytes).map (Read.map Value.string))
      (consumeString p s) := by
  obtain ⟨rest, rfl⟩ := exists_rest_of_tokenAt begins rfl
  have follows := consumeStringRaw_follows at_
  rw [cutAt_string begins, readString, consumeString_eq]
  cases ending : readQuoted (ascii '"' :: rest) with
  | closed read =>
    rcases consumed : consumeStringRaw p s with ⟨_ | string, s'⟩ <;> rw [ending, consumed] at follows
    · exact follows.elim
    · obtain ⟨text, behind⟩ := follows
      left
      refine ⟨fun cut => StringEnd.noConfusion cut.1, read.slips, read.rest, ?_, behind⟩
      rw [text, List.nil_append]
      rfl
  | runsOut =>
    rcases consumed : consumeStringRaw p s with ⟨_ | string, s'⟩ <;> rw [ending, consumed] at follows
    · exact ⟨fun cut => follows cut.2, Or.inl rfl⟩
    · obtain ⟨cut, index, pos, depth_⟩ := follows
      exact Or.inr ⟨⟨rfl, cut⟩, rfl, index, pos, depth_⟩
  | malformed =>
    rcases consumed : consumeStringRaw p s with ⟨_ | string, s'⟩ <;> rw [ending, consumed] at follows
    · exact ⟨fun cut => StringEnd.noConfusion cut.1, Or.inl rfl⟩
    · cases follows

theorem consumeNumber_follows (at_ : At p depth s bytes) (begins : tokenAt bytes = .number) :
    Follows p depth (cutAt p bytes = true) (openAt p bytes = true) (readNumber p.doubles bytes) (consumeNumber p s) := by
  have noCut : ¬ cutAt p bytes = true := by
    rw [cutAt, begins]
    exact Bool.false_ne_true
  have open_iff : openAt p bytes = true ↔ (pastNumber bytes).isSome ∧ pastNumberIn p bytes = none := by
    rw [openAt, begins, goesOn, decide_eq_true rfl, Bool.true_and, Bool.and_eq_true, Option.isNone_iff_eq_none]
  rw [readNumber]
  rcases consumeNumber_eq at_ (tokenAt_ne_nil begins (by decide)) with ⟨s', passed, failed⟩ | ⟨rest, s', passed, isIn, eq⟩
  · rw [failed]
    refine ⟨noCut, ?_⟩
    cases isPast : pastNumber bytes with
    | none => exact Or.inl rfl
    | some rest =>
      obtain rfl := pastNumber_end isPast passed.fails
      dsimp only
      split
      next =>
        cases numberValue p.doubles (bytes.take (bytes.length - [].length)) with
        | none => exact Or.inl rfl
        | some value =>
          right
          refine ⟨open_iff.mpr ⟨by rw [isPast]; rfl, passed.fails⟩, value, 0, rfl⟩
      next => exact Or.inl rfl
  · have isPast := pastNumber_of_pastNumberIn isIn
    obtain ⟨token, there⟩ := getNextToken_at (at_.passed passed)
    rw [eq, isPast, token, slice_passed at_ passed]
    dsimp only
    by_cases ends : endsNumber (tokenAt (skip rest).rest) = true
    · rw [if_neg (not_not.mpr ends), if_pos ends]
      cases numberValue p.doubles (bytes.take (bytes.length - rest.length)) with
      | none => exact ⟨noCut, Or.inl rfl⟩
      | some value =>
        have behind := behind_passed at_ passed (pastNumber_shorter isPast)
        left
        exact ⟨noCut, 0, rest, rfl, behind.index, behind.inside, behind.ahead, there.depth⟩
    · rw [if_pos ends, if_neg ends]
      exact ⟨noCut, Or.inl rfl⟩

theorem cutAt_literal (begins : tokenAt bytes = token)
    (literal : token = .boolTrue ∨ token = .boolFalse ∨ token = .null) :
    cutAt p bytes = true ↔ bytes ++ [p.source.beyond 0] = wordOf token := by
  rw [cutAt, begins]
  rcases literal with rfl | rfl | rfl
  all_goals exact decide_eq_true_iff

theorem consumeLiteral_follows (at_ : At p depth s bytes) (begins : tokenAt bytes = token)
    (literal : token = .boolTrue ∨ token = .boolFalse ∨ token = .null) :
    Follows p depth (cutAt p bytes = true) (openAt p bytes = true) (readWord (wordOf token) (literalOf token) bytes)
      (consumeLiteral p s) := by
  have more : token ≠ .endOfInput := by
    rcases literal with rfl | rfl | rfl
    all_goals decide
  obtain ⟨c, rest, rfl⟩ := List.exists_cons_of_ne_nil (tokenAt_ne_nil begins more)
  have positive : 0 < (wordOf token).length := by
    rcases literal with rfl | rfl | rfl
    all_goals decide
  have length := at_.length
  rw [cutAt_literal begins literal, consumeLiteral_eq at_ begins literal, wordAhead, readWord]
  generalize wordOf token = word at positive ⊢
  have index : (nextNChars (word.length - 1) s).index = (nextNChars (word.length - 1) s).pos := (at_.drop _).index
  rw [List.length_cons] at length
  by_cases whole : (c :: rest).take word.length = word
  · have fits := congrArg List.length whole
    rw [List.length_take, List.length_cons] at fits
    have ahead : ((c :: rest) ++ [p.source.beyond 0]).take word.length = word := by
      rw [List.take_append_of_le_length (by rw [List.length_cons]; omega), whole]
    have fits : word.length ≤ (c :: rest).length + 1 := by
      rw [List.length_cons]
      omega
    rw [if_pos whole, if_pos (by rw [ahead, decide_eq_true fits, decide_eq_true rfl]; rfl)]
    left
    refine ⟨fun cut => ?_, 0, (c :: rest).drop word.length, rfl, index, ?_, ?_, at_.depth⟩
    · have lengths := congrArg List.length cut
      rw [List.length_append, List.length_cons, List.length_singleton] at lengths
      omega
    · rw [nextNChars_pos]
      omega
    · rw [nextNChars_pos, Nat.add_assoc, Nat.sub_add_cancel positive, ← List.drop_drop, at_.ahead]
  · rw [if_neg whole]
    by_cases cut : (c :: rest) ++ [p.source.beyond 0] = word
    · have lengths := congrArg List.length cut
      rw [List.length_append, List.length_cons, List.length_singleton] at lengths
      have fits : word.length ≤ (c :: rest).length + 1 := by
        rw [List.length_cons]
        omega
      rw [if_pos (by rw [cut, List.take_length, decide_eq_true fits, decide_eq_true rfl]; rfl)]
      refine Or.inr ⟨cut, rfl, index, ?_, at_.depth⟩
      rw [nextNChars_pos]
      omega
    · rw [if_neg]
      · exact ⟨cut, Or.inl rfl⟩
      · rw [Bool.and_eq_true, decide_eq_true_eq, decide_eq_true_eq, List.length_cons]
        rintro ⟨fits, ahead⟩
        by_cases last : word.length = rest.length + 1 + 1
        · apply cut
          rw [← ahead, List.take_of_length_le]
          rw [List.length_append, List.length_cons, List.length_singleton]
          omega
        · apply whole
          rw [List.take_append_of_le_length (by rw [List.length_cons]; omega)] at ahead
          exact ahead

/-! ### Containers -/

section Containers

variable {close : Token} {consumeOne : Token → State → Outcome α} {readOne : List Byte → Option (Read α)}

theorem readSeparator_nil (allowTrailingCommas : Bool) (closes : close ≠ .endOfInput) :
    readSeparator allowTrailingCommas close [] = none := by
  have none_ : tokenAt (skip []).rest = .endOfInput := rfl
  rw [readSeparator]
  dsimp only
  rw [none_, if_neg (by decide), if_neg closes.symm]

/-- Where the parser is behind an element, it goes on to the token where the reading goes on. -/
theorem consumeSeparator_follows (close : Token) (columnAdjust : Int) (at_ : At p depth (nextChar s) bytes) :
    match consumeSeparator p close columnAdjust s with
    | .value token s => ∃ slips rest, readSeparator p.options.allowTrailingCommas close bytes = some ⟨(), slips, rest⟩ ∧
        token = tokenAt rest ∧ At p depth s rest
    | .null _ => readSeparator p.options.allowTrailingCommas close bytes = none
    | .unfinished => False := by
  obtain ⟨token, there⟩ := getNextToken_at at_
  rw [consumeSeparator, readSeparator]
  rcases next : getNextToken p (nextChar s) with ⟨firstToken, s'⟩
  rw [next] at token there
  dsimp only at token there ⊢
  subst token
  by_cases comma : tokenAt (skip bytes).rest = .listSeparator
  · rw [if_pos comma, if_pos comma]
    obtain ⟨nextToken, onwards⟩ := getNextToken_at there.tail
    rcases further : getNextToken p (nextChar s') with ⟨secondToken, s''⟩
    rw [further] at nextToken onwards
    dsimp only at nextToken onwards ⊢
    subst nextToken
    by_cases trailing : tokenAt (skip (skip bytes).rest.tail).rest = close ∧ ¬ p.options.allowTrailingCommas = true
    · rw [if_pos trailing, if_pos trailing]
    · rw [if_neg trailing, if_neg trailing]
      exact ⟨_, _, rfl, rfl, onwards⟩
  · rw [if_neg comma, if_neg comma]
    by_cases closed : tokenAt (skip bytes).rest = close
    · rw [if_neg (not_not.mpr closed), if_pos closed]
      exact ⟨_, _, rfl, rfl, there⟩
    · rw [if_pos closed, if_neg closed]

theorem readElements_stops {allowTrailingCommas : Bool} (closes : close ≠ .endOfInput) (more : tokenAt bytes ≠ close)
    (last : readOne bytes = none ∨ ∃ value slips, readOne bytes = some ⟨value, slips, []⟩) (fuel : Nat) :
    readElements allowTrailingCommas close readOne fuel bytes = none := by
  cases fuel with
  | zero => rfl
  | succ fuel =>
    rw [readElements, if_neg more]
    rcases last with none_ | ⟨value, slips, isRead⟩
    · rw [none_]
    · rw [isRead]
      dsimp only
      rw [readSeparator_nil allowTrailingCommas closes]

theorem Ended.nextChar (ended : Ended p depth s) : At p depth (Json.nextChar s) [] where
  index := by rw [nextChar_index, nextChar_pos, ended.index]
  ahead := List.drop_eq_nil_of_le (by rw [nextChar_pos, ended.pos]; exact Nat.le_succ _)
  depth := ended.depth

variable {outcome : Outcome α}

theorem Follows.slips {cut open_ : Prop} {value : α} {slips : Nat}
    (follows : Follows p depth cut open_ (some ⟨value, slips, rest⟩) outcome) (slips' : Nat) :
    Follows p depth cut open_ (some ⟨value, slips', rest⟩) outcome := by
  rcases outcome with ⟨result, s⟩ | s | _
  · rcases follows with ⟨whole, slips, rest, same, behind⟩ | ⟨_, none_, _⟩
    · cases same
      exact Or.inl ⟨whole, slips', _, rfl, behind⟩
    · cases none_
  · rcases follows with ⟨whole, none_ | ⟨goesOn, value, slips, same⟩⟩
    · cases none_
    · cases same
      exact ⟨whole, Or.inr ⟨goesOn, _, slips', rfl⟩⟩
  · exact follows

theorem consumeElements_follows (columnAdjust : Int) (add : γ → α → γ) (closes : close ≠ .endOfInput) (advances : Advances readOne)
    (each : ∀ {s bytes}, At p depth s bytes →
      ∃ cut open_, Follows p depth cut open_ (readOne bytes) (consumeOne (tokenAt bytes) s))
    {fuel readFuel : Nat} (enough : bytes.length < fuel) (readEnough : bytes.length ≤ readFuel) (at_ : At p depth s bytes)
    (container : γ) :
    Follows p depth False False
      ((readElements p.options.allowTrailingCommas close readOne readFuel bytes).map
        (Read.map fun elements => elements.foldl add container))
      (consumeElements p close columnAdjust consumeOne add fuel (tokenAt bytes) container s) := by
  induction fuel generalizing readFuel s bytes container with
  | zero => exact absurd enough (Nat.not_lt_zero _)
  | succ fuel ih =>
    rw [consumeElements]
    by_cases closed : tokenAt bytes = close
    · rw [if_pos closed]
      obtain ⟨c, rest, rfl⟩ := List.exists_cons_of_ne_nil (tokenAt_ne_nil closed closes)
      obtain ⟨readFuel, rfl⟩ := Nat.exists_eq_succ_of_ne_zero (Nat.ne_of_gt (Nat.lt_of_lt_of_le (Nat.succ_pos _) readEnough))
      rw [readElements, if_pos closed]
      exact Or.inl ⟨not_false, 0, rest, rfl, at_.behind⟩
    · rw [if_neg closed]
      have one := each at_
      obtain ⟨cut, open_, one⟩ := one
      rcases consumed : consumeOne (tokenAt bytes) s with ⟨element, s'⟩ | s' | _ <;> rw [consumed] at one
      · rcases one with ⟨_, slips, rest, isRead, behind⟩ | ⟨_, isRead, ended⟩
        · obtain ⟨readFuel, rfl⟩ : ∃ fuel, readFuel = fuel + 1 := by
            have fewer := advances bytes _ isRead
            exact ⟨readFuel - 1, by omega⟩
          have fewer := advances bytes _ isRead
          have separator := consumeSeparator_follows close columnAdjust behind.nextChar
          rw [readElements, if_neg closed, isRead]
          dsimp only [Outcome.bind] at separator fewer ⊢
          rcases between : consumeSeparator p close columnAdjust s' with ⟨token, s''⟩ | s'' | _ <;> rw [between] at separator
          · obtain ⟨gapSlips, others, isGap, rfl, there⟩ := separator
            have further := readSeparator_le isGap
            rw [isGap]
            dsimp only at further ⊢
            have follows := ih (show others.length < fuel by omega) (show others.length ≤ readFuel by omega) there
              (add container element)
            cases areRead : readElements p.options.allowTrailingCommas close readOne readFuel others with
            | none =>
              rw [areRead] at follows
              exact follows
            | some read =>
              rw [areRead] at follows
              exact follows.slips _
          · rw [show readSeparator _ _ _ = none from separator]
            exact ⟨not_false, Or.inl rfl⟩
          · exact separator.elim
        · rw [readElements_stops closes closed (Or.inl isRead)]
          have separator := consumeSeparator_follows close columnAdjust ended.nextChar
          dsimp only [Outcome.bind]
          rcases between : consumeSeparator p close columnAdjust s' with ⟨token, s''⟩ | s'' | _ <;> rw [between] at separator
          · obtain ⟨_, _, isGap, _⟩ := separator
            rw [readSeparator_nil _ closes] at isGap
            cases isGap
          · exact ⟨not_false, Or.inl rfl⟩
          · exact separator.elim
      · rw [readElements_stops closes closed (one.2.imp_right And.right)]
        exact ⟨not_false, Or.inl rfl⟩
      · exact one.elim

theorem Follows.leave {reading : Option (Read α)} (follows : Follows p (depth + 1) False False reading outcome) :
    Follows p depth False False reading outcome.leave := by
  rcases outcome with ⟨result, s⟩ | s | _
  · rcases follows with ⟨whole, slips, rest, isRead, behind⟩ | ⟨impossible, _⟩
    · exact Or.inl ⟨whole, slips, rest, isRead, behind.index, behind.inside, behind.ahead,
        congrArg (· - 1) behind.depth⟩
    · exact impossible.elim
  · exact follows
  · exact follows

theorem Follows.map {β : Type} {cut open_ : Prop} {reading : Option (Read α)}
    (follows : Follows p depth cut open_ reading outcome) (f : α → β) :
    Follows p depth cut open_ (reading.map (Read.map f)) (outcome.bind fun result s => .value (f result) s) := by
  rcases outcome with ⟨result, s⟩ | s | _
  · rcases follows with ⟨whole, slips, rest, isRead, behind⟩ | ⟨isCut, none_, ended⟩
    · rw [isRead]
      exact Or.inl ⟨whole, slips, rest, rfl, behind⟩
    · rw [none_]
      exact Or.inr ⟨isCut, rfl, ended⟩
  · rcases follows with ⟨whole, none_ | ⟨goesOn, value, slips, same⟩⟩
    · rw [none_]
      exact ⟨whole, Or.inl rfl⟩
    · rw [same]
      exact ⟨whole, Or.inr ⟨goesOn, f value, slips, rfl⟩⟩
  · exact follows

theorem At.fuel (at_ : At p depth s bytes) : bytes.length < p.source.text.length + 1 := by
  rw [at_.length]
  omega

/-- A container is read as its elements are. -/
theorem Follows.container {reading : List α → γ} {close : Token} {outcome : Outcome γ}
    (follows : Follows p depth False False ((readElements p.options.allowTrailingCommas close readOne bytes.length
      (skip bytes.tail).rest).map (Read.map reading)) outcome) :
    Follows p depth False False ((readContainer p.options.allowTrailingCommas close readOne bytes).map (Read.map reading))
      outcome := by
  rw [readContainer]
  cases areRead : readElements p.options.allowTrailingCommas close readOne bytes.length (skip bytes.tail).rest with
  | none =>
    rw [areRead] at follows
    exact follows
  | some read =>
    rw [areRead] at follows
    exact follows.slips _

theorem foldl_concat (items list : List α) : items.foldl (fun list item => list ++ [item]) list = list ++ items := by
  induction items generalizing list with
  | nil => exact (List.append_nil list).symm
  | cons item others ih => rw [List.foldl_cons, ih, List.append_assoc, List.singleton_append]

theorem map_map {β : Type} (reading : Option (Read α)) (f : α → β) (g : β → γ) :
    (reading.map (Read.map f)).map (Read.map g) = reading.map (Read.map fun value => g (f value)) := by
  rw [Option.map_map]
  rfl

/-- The state in which the loop of a container begins. -/
def opened (p : Parser D) (s : State) : State :=
  (getNextToken p (nextChar { s with stackDepth := s.stackDepth + 1 })).2

theorem opened_at (at_ : At p depth s bytes) : At p (depth + 1) (opened p s) (skip bytes.tail).rest := by
  have deeper : At p (depth + 1) { s with stackDepth := s.stackDepth + 1 } bytes :=
    ⟨at_.index, at_.ahead, congrArg (· + 1) at_.depth⟩
  exact (getNextToken_at deeper.tail).2

theorem consumeContainer_eq {begin : Byte} (at_ : At p depth s (begin :: rest)) (loop : Token → State → Outcome (Value D)) :
    consumeContainer p begin loop s =
      (if kStackMaxDepth ≤ depth + 1 then
        Outcome.null (reportError .tooMuchNesting 1 { s with stackDepth := s.stackDepth + 1 })
      else loop (tokenAt (skip rest).rest) (opened p s)).leave := by
  have deeper : At p (depth + 1) { s with stackDepth := s.stackDepth + 1 } (begin :: rest) :=
    ⟨at_.index, at_.ahead, congrArg (· + 1) at_.depth⟩
  rw [consumeContainer, if_neg (not_not.mpr at_.current), ← (getNextToken_at deeper.nextChar).1, ← at_.depth]
  rfl

theorem consumeContainer_follows {begin : Byte} {loop : Token → State → Outcome (Value D)} {reading : Option (Read (Value D))}
    (at_ : At p depth s (begin :: rest)) (room : depth + 1 < kStackMaxDepth)
    (follows : Follows p (depth + 1) False False reading (loop (tokenAt (skip rest).rest) (opened p s))) :
    Follows p depth False False reading (consumeContainer p begin loop s) := by
  rw [consumeContainer_eq at_, if_neg (Nat.not_le.mpr room)]
  exact follows.leave

end Containers

section Entries

variable {parse : Token → State → Outcome (Value D)} {readOne : List Byte → Option (Read (Value D))}

theorem consumeEntry_follows (each : ∀ {s bytes}, At p depth s bytes →
      ∃ cut open_, Follows p depth cut open_ (readOne bytes) (parse (tokenAt bytes) s)) (at_ : At p depth s bytes) :
    ∃ cut open_, Follows p depth cut open_ (readEntry readOne bytes) (consumeEntry p parse (tokenAt bytes) s) := by
  rw [consumeEntry, readEntry]
  by_cases begins : tokenAt bytes = .string
  · obtain ⟨rest, rfl⟩ := exists_rest_of_tokenAt begins rfl
    have follows := consumeStringRaw_follows at_
    rw [if_neg (not_not.mpr begins), if_neg (not_not.mpr begins), readString]
    rcases consumed : consumeStringRaw p s with ⟨_ | key, s'⟩ <;> rw [consumed] at follows
    · refine ⟨False, False, not_false, Or.inl ?_⟩
      cases ending : readQuoted (ascii '"' :: rest) with
      | closed read =>
        rw [ending] at follows
        exact follows.elim
      | runsOut => rfl
      | malformed => rfl
    · dsimp only
      cases ending : readQuoted (ascii '"' :: rest) with
      | closed read =>
        rw [ending] at follows
        obtain ⟨text, behind⟩ := follows
        rw [List.nil_append] at text
        obtain ⟨token, there⟩ := getNextToken_at behind.nextChar
        dsimp only
        rw [token, text]
        by_cases pair : tokenAt (skip read.rest).rest = .objectPairSeparator
        · rw [if_neg (not_not.mpr pair), if_neg (not_not.mpr pair)]
          obtain ⟨next, onwards⟩ := getNextToken_at there.tail
          rw [next]
          obtain ⟨cut, open_, value⟩ := each onwards
          refine ⟨cut, open_, ?_⟩
          have mapped := value.map fun value => (read.value, value)
          cases isRead : readOne (skip (skip read.rest).rest.tail).rest with
          | none =>
            rw [isRead] at mapped
            exact mapped
          | some one =>
            rw [isRead] at mapped
            exact mapped.slips _
        · rw [if_pos pair, if_pos pair]
          exact ⟨False, False, not_false, Or.inl rfl⟩
      | runsOut =>
        rw [ending] at follows
        have ended : Ended p depth s' := ⟨follows.2.1, follows.2.2.1, follows.2.2.2⟩
        obtain ⟨token, _⟩ := getNextToken_at ended.nextChar
        have noSeparator : (getNextToken p (nextChar s')).1 ≠ .objectPairSeparator := by
          rw [token]
          decide
        rw [if_pos noSeparator]
        exact ⟨False, False, not_false, Or.inl rfl⟩
      | malformed =>
        rw [ending] at follows
        cases follows
  · rw [if_pos begins, if_pos begins]
    exact ⟨False, False, not_false, Or.inl rfl⟩

end Entries

/-! ### Values -/

/-- A value that begins with no literal, string or number is not cut. -/
theorem not_cutAt (noScalar : tokenAt bytes ∉ [Token.string, .boolTrue, .boolFalse, .null]) : ¬ cutAt p bytes = true := by
  rw [cutAt]
  split
  next begins => exact absurd begins (fun same => noScalar (by rw [same]; decide))
  next begins => exact absurd begins (fun same => noScalar (by rw [same]; decide))
  next begins => exact absurd begins (fun same => noScalar (by rw [same]; decide))
  next begins => exact absurd begins (fun same => noScalar (by rw [same]; decide))
  next => exact Bool.false_ne_true

/-- Whether a token begins a container. -/
def opensContainer (token : Token) : Bool := token = .objectBegin || token = .arrayBegin

theorem parseScalar_follows (levels : Nat) (at_ : At p depth s bytes) (scalar : opensContainer (tokenAt bytes) = false) :
    Follows p depth (cutAt p bytes = true) (openAt p bytes = true) (readScalar p.doubles bytes)
      (parseToken p (levels + 1) (tokenAt bytes) s) := by
  cases begins : tokenAt bytes with
  | objectBegin =>
    rw [begins] at scalar
    cases scalar
  | arrayBegin =>
    rw [begins] at scalar
    cases scalar
  | string =>
    rw [parseToken, readScalar, begins]
    exact consumeString_follows at_ begins
  | number =>
    rw [parseToken, readScalar, begins]
    exact consumeNumber_follows at_ begins
  | boolTrue =>
    rw [parseToken, readScalar, begins]
    exact consumeLiteral_follows at_ begins (.inl rfl)
  | boolFalse =>
    rw [parseToken, readScalar, begins]
    exact consumeLiteral_follows at_ begins (.inr (.inl rfl))
  | null =>
    rw [parseToken, readScalar, begins]
    exact consumeLiteral_follows at_ begins (.inr (.inr rfl))
  | _ =>
    rw [parseToken, readScalar, begins]
    · exact ⟨not_cutAt (by rw [begins]; decide), Or.inl rfl⟩
    all_goals decide

theorem readValue_scalar (doubles : Doubles D) (allowTrailingCommas : Bool) (levels : Nat)
    (scalar : opensContainer (tokenAt bytes) = false) :
    readValue doubles allowTrailingCommas levels bytes = readScalar doubles bytes := by
  cases levels with
  | zero => rfl
  | succ levels =>
    rw [readValue]
    split
    next begins =>
      rw [begins] at scalar
      cases scalar
    next begins =>
      rw [begins] at scalar
      cases scalar
    next => rfl

/-- Without `cut` and `open_` there is no value but the reading's. -/
theorem Follows.weaken {cut open_ : Prop} {reading : Option (Read α)} {outcome : Outcome α}
    (follows : Follows p depth False False reading outcome) (whole : ¬ cut) : Follows p depth cut open_ reading outcome := by
  rcases outcome with ⟨result, s⟩ | s | _
  · rcases follows with ⟨_, isRead⟩ | ⟨impossible, _⟩
    · exact Or.inl ⟨whole, isRead⟩
    · exact impossible.elim
  · rcases follows.2 with none_ | ⟨impossible, _⟩
    · exact ⟨whole, Or.inl none_⟩
    · exact impossible.elim
  · exact follows

theorem parseToken_follows {levels : Nat} (room : depth + levels + 1 = kStackMaxDepth) (at_ : At p depth s bytes) :
    Follows p depth (cutAt p bytes = true) (openAt p bytes = true)
      (readValue p.doubles p.options.allowTrailingCommas levels bytes) (parseToken p (levels + 1) (tokenAt bytes) s) := by
  induction levels generalizing depth s bytes with
  | zero =>
    cases scalar : opensContainer (tokenAt bytes) with
    | false => exact parseScalar_follows 0 at_ scalar
    | true =>
      rw [opensContainer, Bool.or_eq_true, decide_eq_true_eq, decide_eq_true_eq] at scalar
      rcases scalar with begins | begins
      · obtain ⟨rest, rfl⟩ := exists_rest_of_tokenAt begins rfl
        rw [begins, parseToken, consumeDictionary, consumeContainer_eq at_, if_pos (Nat.le_of_eq room.symm), readValue,
          readScalar, begins]
        exact ⟨not_cutAt (by rw [begins]; decide), Or.inl rfl⟩
      · obtain ⟨rest, rfl⟩ := exists_rest_of_tokenAt begins rfl
        rw [begins, parseToken, consumeList, consumeContainer_eq at_, if_pos (Nat.le_of_eq room.symm), readValue,
          readScalar, begins]
        exact ⟨not_cutAt (by rw [begins]; decide), Or.inl rfl⟩
  | succ levels ih =>
    cases scalar : opensContainer (tokenAt bytes) with
    | false =>
      rw [readValue_scalar _ _ _ scalar]
      exact parseScalar_follows (levels + 1) at_ scalar
    | true =>
      have each : ∀ {s bytes}, At p (depth + 1) s bytes → ∃ cut open_, Follows p (depth + 1) cut open_
          (readValue p.doubles p.options.allowTrailingCommas levels bytes) (parseToken p (levels + 1) (tokenAt bytes) s) :=
        fun at_ => ⟨_, _, ih (by omega) at_⟩
      have advances := readValue_advances p.doubles p.options.allowTrailingCommas levels
      rw [opensContainer, Bool.or_eq_true, decide_eq_true_eq, decide_eq_true_eq] at scalar
      rcases scalar with begins | begins
      · obtain ⟨rest, rfl⟩ := exists_rest_of_tokenAt begins rfl
        have inner : At p (depth + 1) (opened p s) (skip rest).rest := opened_at at_
        refine Follows.weaken ?_ (not_cutAt (by rw [begins]; decide))
        rw [begins, parseToken, consumeDictionary, readValue, begins]
        refine consumeContainer_follows at_ (by omega) (Follows.container ?_)
        have entries := (consumeElements_follows 0
          (fun (dict : List (List Byte × Value D)) entry => setWithoutPathExpansion dict entry.1 entry.2)
          (show Token.objectEnd ≠ Token.endOfInput by decide) (readEntry_advances advances) (consumeEntry_follows each)
          inner.fuel ((skip_le rest).trans (Nat.le_succ _)) inner []).map Value.dictionary
        rw [map_map] at entries
        exact entries
      · obtain ⟨rest, rfl⟩ := exists_rest_of_tokenAt begins rfl
        have inner : At p (depth + 1) (opened p s) (skip rest).rest := opened_at at_
        refine Follows.weaken ?_ (not_cutAt (by rw [begins]; decide))
        rw [begins, parseToken, consumeList, readValue, begins]
        refine consumeContainer_follows at_ (by omega) (Follows.container ?_)
        have items := (consumeElements_follows 1 (fun (list : List (Value D)) item => list ++ [item])
          (show Token.arrayEnd ≠ Token.endOfInput by decide) advances each inner.fuel
          ((skip_le rest).trans (Nat.le_succ _)) inner []).map Value.list
        rw [map_map] at items
        simp only [foldl_concat, List.nil_append] at items
        exact items

end Libchrome.Base.Json
