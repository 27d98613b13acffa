import Libchrome.Base.Json.ParserValues
import Libchrome.Base.Json.ParserLoops

/-!
# The contract of the `Consume` functions

`json_parser.h` says that a `Consume` function leaves the parser on the last byte of what it consumed. The calls that a run
makes are those below, each in the state in which it is made.
-/

namespace Libchrome.Base.Json
open Library.Bytes Library.Cursor NumberConversions Utf8

variable {D : Type} {p : Parser D} {depth levels : Nat} {s s' : State} {token : Token} {c : Byte} {bytes rest : List Byte}
  {α : Type}

/-! ### The calls of a run -/

/-- The states at the head of a loop over elements, with the token ahead. -/
inductive Head (p : Parser D) (close : Token) (columnAdjust : Int) (consumeOne : Token → State → Outcome α) (first : State) :
    Token → State → Prop
  | first : Head p close columnAdjust consumeOne first (getNextToken p first).1 (getNextToken p first).2
  | next {token next : Token} {s behind there : State} {element : α}
      (head : Head p close columnAdjust consumeOne first token s) (more : token ≠ close)
      (consumed : consumeOne token s = .value element behind)
      (separated : consumeSeparator p close columnAdjust behind = .value next there) :
      Head p close columnAdjust consumeOne first next there

/-- Behind the opening character of a container, with the container on the stack. -/
def entered (s : State) : State := nextChar { s with stackDepth := s.stackDepth + 1 }

/-- The state in which the root is looked for. -/
def afterMark (p : Parser D) : State := if startsWithByteOrderMark p start then nextNChars 3 start else start

/-- The calls of `ParseToken`, each with the levels of nesting that are left to it. -/
inductive Parses (p : Parser D) : Nat → Token → State → Prop
  | root : Parses p kStackMaxDepth (getNextToken p (afterMark p)).1 (getNextToken p (afterMark p)).2
  | item {levels : Nat} {token : Token} {s there : State} (list : Parses p (levels + 1) .arrayBegin s)
      (shallow : s.stackDepth + 1 < kStackMaxDepth)
      (head : Head p .arrayEnd 1 (parseToken p levels) (entered s) token there) (more : token ≠ .arrayEnd) :
      Parses p levels token there
  | entry {levels : Nat} {s there behind pair : State} {key : StringBuilder}
      (dictionary : Parses p (levels + 1) .objectBegin s) (shallow : s.stackDepth + 1 < kStackMaxDepth)
      (head : Head p .objectEnd 0 (consumeEntry p (parseToken p levels)) (entered s) .string there)
      (isKey : consumeStringRaw p there = (some key, behind))
      (separated : getNextToken p (nextChar behind) = (.objectPairSeparator, pair)) :
      Parses p levels (getNextToken p (nextChar pair)).1 (getNextToken p (nextChar pair)).2

/-- The functions that consume a value or a key, with the levels of nesting that are left to what is within. -/
inductive Consumer where
  | consumeDictionary (levels : Nat)
  | consumeList (levels : Nat)
  | consumeString
  | consumeStringRaw
  | consumeNumber
  | consumeLiteral

/-- The function that `ParseToken` calls. -/
def consumerOf : Nat → Token → Option Consumer
  | levels + 1, .objectBegin => some (.consumeDictionary levels)
  | levels + 1, .arrayBegin => some (.consumeList levels)
  | _ + 1, .string => some .consumeString
  | _ + 1, .number => some .consumeNumber
  | _ + 1, .boolTrue | _ + 1, .boolFalse | _ + 1, .null => some .consumeLiteral
  | _, _ => none

/-- The calls of the `Consume` functions. -/
inductive Calls (p : Parser D) : Consumer → State → Prop
  | parsed {levels : Nat} {token : Token} {s : State} {consumer : Consumer} (parses : Parses p levels token s)
      (dispatched : consumerOf levels token = some consumer) : Calls p consumer s
  | string {s : State} (called : Calls p .consumeString s) : Calls p .consumeStringRaw s
  | key {levels : Nat} {s there : State} (dictionary : Parses p (levels + 1) .objectBegin s)
      (shallow : s.stackDepth + 1 < kStackMaxDepth)
      (head : Head p .objectEnd 0 (consumeEntry p (parseToken p levels)) (entered s) .string there) :
      Calls p .consumeStringRaw there

/-- Where the parser is once a value is made. -/
def Outcome.ends : Outcome α → Option State
  | .value _ s => some s
  | _ => none

/-- Where the parser is once a call has succeeded. -/
def Consumer.ends (p : Parser D) : Consumer → State → Option State
  | .consumeDictionary levels, s => (Json.consumeDictionary p (parseToken p levels) s).ends
  | .consumeList levels, s => (Json.consumeList p (parseToken p levels) s).ends
  | .consumeString, s => (Json.consumeString p s).ends
  | .consumeStringRaw, s => (Json.consumeStringRaw p s).1.map fun _ => (Json.consumeStringRaw p s).2
  | .consumeNumber, s => (Json.consumeNumber p s).ends
  | .consumeLiteral, s => (Json.consumeLiteral p s).ends

/-- What is left of the bytes ahead behind the value that stands there. -/
def Consumer.behind (p : Parser D) : Consumer → List Byte → Option (List Byte)
  | .consumeDictionary levels, bytes | .consumeList levels, bytes =>
    (readValue p.doubles p.options.allowTrailingCommas levels bytes).map Read.rest
  | .consumeString, bytes | .consumeStringRaw, bytes => (readString bytes).map Read.rest
  | .consumeNumber, bytes => (readNumber p.doubles bytes).map Read.rest
  | .consumeLiteral, bytes => (readWord (D := D) (wordOf (tokenAt bytes)) (literalOf (tokenAt bytes)) bytes).map Read.rest

/-- The parser is on the last byte of the value that stood ahead. -/
structure OnLastByte (p : Parser D) (consumer : Consumer) (s s' : State) : Prop where
  index : s'.index = s'.pos
  inside : s'.pos < p.source.text.length
  last : consumer.behind p (p.source.text.drop s.pos) = some (p.source.text.drop (s'.pos + 1))

/-! ### Where the calls are made -/

variable (p) in
/-- What is known of a call of `ParseToken`. -/
structure ParsesAt (levels : Nat) (token : Token) (s : State) : Prop where
  index : s.index = s.pos
  ahead : token = tokenAt (p.source.text.drop s.pos)
  room : s.stackDepth + levels = kStackMaxDepth
  positive : 0 < levels

variable (p) in
/-- At the head of a loop the parser knows the token ahead. -/
structure HeadAt (depth : Nat) (token : Token) (s : State) : Prop where
  at_ : At p depth s (p.source.text.drop s.pos)
  ahead : token = tokenAt (p.source.text.drop s.pos)

theorem headAt_of_next {firstState : State} (at_ : At p depth firstState bytes) :
    HeadAt p depth (getNextToken p firstState).1 (getNextToken p firstState).2 := by
  obtain ⟨token, there⟩ := getNextToken_at at_
  refine ⟨there.self, ?_⟩
  rw [token, there.ahead]

theorem Head.at_ {close : Token} {columnAdjust : Int} {consumeOne : Token → State → Outcome α}
    {readOne : List Byte → Option (Read α)} {first : State}
    (each : ∀ {s bytes}, At p depth s bytes →
      ∃ cut open_, Follows p depth cut open_ (readOne bytes) (consumeOne (tokenAt bytes) s))
    (begins : At p depth first bytes) (head : Head p close columnAdjust consumeOne first token s) :
    HeadAt p depth token s := by
  induction head with
  | first => exact headAt_of_next begins
  | @next token next s behind there element _ more consumed separated ih =>
    obtain ⟨cut, open_, follows⟩ := each ih.at_
    rw [← ih.ahead, consumed] at follows
    have onwards : ∃ bytes, At p depth (nextChar behind) bytes := by
      rcases follows with ⟨_, _, rest, _, isBehind⟩ | ⟨_, _, ended⟩
      · exact ⟨rest, isBehind.nextChar⟩
      · exact ⟨[], ended.nextChar⟩
    obtain ⟨bytes, at_⟩ := onwards
    have separator := consumeSeparator_follows close columnAdjust at_
    rw [separated] at separator
    obtain ⟨_, rest, _, token, there⟩ := separator
    refine ⟨there.self, ?_⟩
    rw [token, there.ahead]

theorem afterMark_at (p : Parser D) : At p 0 (afterMark p) (pastByteOrderMark p.source.text) := by
  have begins : At p 0 start p.source.text := ⟨rfl, List.drop_zero, rfl⟩
  have mark_iff : startsWithByteOrderMark p start = true ↔ p.source.text.take 3 = byteOrderMark := by
    rcases text : p.source.text with _ | ⟨first, _ | ⟨second, _ | ⟨third, rest⟩⟩⟩
    all_goals simp [startsWithByteOrderMark, canConsume, Buffer.read, text, byteOrderMark, start, and_assoc]
  rw [afterMark, pastByteOrderMark]
  by_cases mark : p.source.text.take 3 = byteOrderMark
  · rw [if_pos mark, if_pos (mark_iff.mpr mark)]
    exact begins.drop 3
  · rw [if_neg mark, if_neg (mt mark_iff.mp mark)]
    exact begins

/-- The values within a container follow their readings. -/
theorem parse_each (room : depth + levels = kStackMaxDepth) (positive : 0 < levels) {s : State} {bytes : List Byte}
    (at_ : At p depth s bytes) : ∃ cut open_, Follows p depth cut open_
      (readValue p.doubles p.options.allowTrailingCommas (levels - 1) bytes) (parseToken p levels (tokenAt bytes) s) := by
  obtain ⟨levels, rfl⟩ := Nat.exists_eq_succ_of_ne_zero (Nat.ne_of_gt positive)
  exact ⟨_, _, parseToken_follows room at_⟩

theorem ParsesAt.at_ (known : ParsesAt p levels token s) : At p s.stackDepth s (p.source.text.drop s.pos) :=
  ⟨known.index, rfl, rfl⟩

theorem entered_at (at_ : At p depth s bytes) : At p (depth + 1) (entered s) bytes.tail :=
  At.tail (s := { s with stackDepth := s.stackDepth + 1 }) ⟨at_.index, at_.ahead, congrArg (· + 1) at_.depth⟩

theorem HeadAt.parsesAt (head : HeadAt p (depth + 1) token s) (room : depth + (levels + 1) = kStackMaxDepth)
    (shallow : depth + 1 < kStackMaxDepth) : ParsesAt p levels token s where
  index := head.at_.index
  ahead := head.ahead
  room := by
    rw [head.at_.depth]
    omega
  positive := by omega

/-- A key that the text ends within has no separator behind it. -/
theorem HeadAt.separated {behind pair : State} {key : StringBuilder} (head : HeadAt p depth .string s)
    (isKey : consumeStringRaw p s = (some key, behind))
    (separated : getNextToken p (nextChar behind) = (.objectPairSeparator, pair)) : ∃ bytes, At p depth pair bytes := by
  obtain ⟨c, rest, ahead⟩ := List.exists_cons_of_ne_nil (tokenAt_ne_nil head.ahead.symm (by decide))
  have at_ := head.at_
  have begins := head.ahead
  rw [ahead] at at_ begins
  obtain rfl : c = ascii '"' := eq_of_tokenOf begins.symm rfl
  have follows := consumeStringRaw_follows at_
  rw [isKey] at follows
  have onwards : ∃ bytes, At p depth (nextChar behind) bytes := by
    cases ending : readQuoted (ascii '"' :: rest) with
    | closed read =>
      rw [ending] at follows
      exact ⟨_, follows.2.nextChar⟩
    | runsOut =>
      rw [ending] at follows
      exact ⟨[], Ended.nextChar ⟨follows.2.1, follows.2.2.1, follows.2.2.2⟩⟩
    | malformed =>
      rw [ending] at follows
      cases follows
  obtain ⟨bytes, at_⟩ := onwards
  have there := (getNextToken_at at_).2
  rw [separated] at there
  exact ⟨_, there⟩

theorem Parses.at_ (parses : Parses p levels token s) : ParsesAt p levels token s := by
  induction parses with
  | root =>
    have head := headAt_of_next (afterMark_at p)
    exact ⟨head.at_.index, head.ahead, by rw [head.at_.depth, Nat.zero_add], by decide⟩
  | item list shallow head _ ih =>
    have room := ih.room
    exact (head.at_ (parse_each (by omega) (by omega)) (entered_at ih.at_)).parsesAt room shallow
  | entry dictionary shallow head isKey separated ih =>
    have room := ih.room
    have there := head.at_ (consumeEntry_follows (parse_each (by omega) (by omega))) (entered_at ih.at_)
    obtain ⟨bytes, onPair⟩ := there.separated isKey separated
    exact (headAt_of_next onPair.tail).parsesAt room shallow

/-! ### What the calls do -/

variable (p) in
/-- What is known of a call of a `Consume` function. -/
structure CallsAt (consumer : Consumer) (s : State) : Prop where
  shallow : s.stackDepth < kStackMaxDepth
  meets : ∀ {s'}, consumer.ends p s = some s' → (OnLastByte p consumer s s' ↔ ¬ cutAt p (p.source.text.drop s.pos) = true)
  returns : cutAt p (p.source.text.drop s.pos) = true → ∃ s', consumer.ends p s = some s'

/-- A call whose outcome follows its reading. -/
theorem callsAt_of_follows {consumer : Consumer} {reading : Option (Read α)} {outcome : Outcome α} {open_ : Prop}
    (shallow : s.stackDepth < kStackMaxDepth)
    (follows : Follows p s.stackDepth (cutAt p (p.source.text.drop s.pos) = true) open_ reading outcome)
    (ends : consumer.ends p s = outcome.ends)
    (behind : consumer.behind p (p.source.text.drop s.pos) = reading.map Read.rest) : CallsAt p consumer s where
  shallow := shallow
  meets := by
    intro s' returned
    rw [ends] at returned
    rcases outcome with ⟨result, there⟩ | there | _
    · cases returned
      rcases follows with ⟨whole, slips, rest, isRead, isBehind⟩ | ⟨cut, none_, ended⟩
      · refine iff_of_true ⟨isBehind.index, isBehind.inside, ?_⟩ whole
        rw [behind, isRead, isBehind.ahead]
        rfl
      · exact iff_of_false (fun onLast => Nat.ne_of_lt onLast.inside ended.pos) (not_not.mpr cut)
    · cases returned
    · cases returned
  returns := by
    intro cut
    rw [ends]
    rcases outcome with ⟨result, there⟩ | there | _
    · exact ⟨there, rfl⟩
    · exact absurd cut follows.1
    · exact follows.elim

theorem callsAt_string (at_ : At p s.stackDepth s (p.source.text.drop s.pos))
    (begins : tokenAt (p.source.text.drop s.pos) = .string) (shallow : s.stackDepth < kStackMaxDepth) :
    CallsAt p .consumeString s := by
  refine callsAt_of_follows shallow (consumeString_follows at_ begins) rfl ?_
  rw [Option.map_map]
  rfl

theorem ends_consumeStringRaw (p : Parser D) (s : State) :
    Consumer.consumeStringRaw.ends p s = Consumer.consumeString.ends p s := by
  rw [Consumer.ends, Consumer.ends, consumeString_eq]
  rcases consumeStringRaw p s with ⟨_ | string, s'⟩
  · rfl
  · rfl

theorem CallsAt.raw (known : CallsAt p .consumeString s) : CallsAt p .consumeStringRaw s where
  shallow := known.shallow
  meets := by
    intro s' returned
    rw [ends_consumeStringRaw] at returned
    rw [← known.meets returned]
    exact ⟨fun onLast => ⟨onLast.index, onLast.inside, onLast.last⟩, fun onLast => ⟨onLast.index, onLast.inside, onLast.last⟩⟩
  returns := by
    rw [ends_consumeStringRaw]
    exact known.returns

theorem callsAt_literal (at_ : At p s.stackDepth s (p.source.text.drop s.pos))
    (begins : tokenAt (p.source.text.drop s.pos) = token) (literal : token = .boolTrue ∨ token = .boolFalse ∨ token = .null)
    (shallow : s.stackDepth < kStackMaxDepth) : CallsAt p .consumeLiteral s := by
  refine callsAt_of_follows shallow (consumeLiteral_follows at_ begins literal) rfl ?_
  rw [Consumer.behind, begins]

theorem Parses.callsAt {consumer : Consumer} (parses : Parses p levels token s)
    (dispatched : consumerOf levels token = some consumer) : CallsAt p consumer s := by
  have known := parses.at_
  obtain ⟨levels, rfl⟩ := Nat.exists_eq_succ_of_ne_zero (Nat.ne_of_gt known.positive)
  have room := known.room
  have begins := known.ahead.symm
  have follows := parseToken_follows room known.at_
  have shallow : s.stackDepth < kStackMaxDepth := by omega
  rw [begins] at follows
  cases token with
  | objectBegin =>
    cases dispatched
    exact callsAt_of_follows shallow follows rfl rfl
  | arrayBegin =>
    cases dispatched
    exact callsAt_of_follows shallow follows rfl rfl
  | string =>
    cases dispatched
    exact callsAt_string known.at_ begins shallow
  | number =>
    cases dispatched
    exact callsAt_of_follows shallow (consumeNumber_follows known.at_ begins) rfl rfl
  | boolTrue =>
    cases dispatched
    exact callsAt_literal known.at_ begins (.inl rfl) shallow
  | boolFalse =>
    cases dispatched
    exact callsAt_literal known.at_ begins (.inr (.inl rfl)) shallow
  | null =>
    cases dispatched
    exact callsAt_literal known.at_ begins (.inr (.inr rfl)) shallow
  | _ => cases dispatched

theorem Calls.callsAt {consumer : Consumer} (called : Calls p consumer s) : CallsAt p consumer s := by
  induction called with
  | parsed parses dispatched => exact parses.callsAt dispatched
  | string _ ih => exact ih.raw
  | key dictionary shallow head =>
    have known := dictionary.at_
    have room := known.room
    have there := head.at_ (consumeEntry_follows (parse_each (by omega) (by omega))) (entered_at known.at_)
    have depth := there.at_.depth
    refine (callsAt_string ?_ there.ahead.symm (by omega)).raw
    rw [depth]
    exact there.at_

/-! ### The contract -/

theorem parseFrom_finished (p : Parser D) : parseFrom p start ≠ .unfinished := by
  obtain ⟨token, there⟩ := getNextToken_at (afterMark_at p)
  obtain ⟨levels, room⟩ : ∃ levels, 0 + levels + 1 = kStackMaxDepth := ⟨99, rfl⟩
  have root := parseToken_follows room there
  rw [parseFrom]
  change (parseNextToken p kStackMaxDepth (afterMark p)).bind _ ≠ _
  rw [parseNextToken]
  dsimp only
  rw [token]
  rcases parsed : parseToken p kStackMaxDepth (tokenAt (skip (pastByteOrderMark p.source.text)).rest)
    (getNextToken p (afterMark p)).2 with ⟨root, s⟩ | s | _
  · dsimp only [Outcome.bind]
    split_ifs
    all_goals
      intro unfinished
      cases unfinished
  · intro unfinished
    cases unfinished
  · rw [← room, Nat.zero_add] at parsed
    rw [parsed] at root
    exact root.elim

/-- The parser that `Parse` sets up. -/
def newParser (doubles : Doubles D) (options : Options) (input : Buffer Byte) : Parser D :=
  ⟨doubles, options, if options.detachableChildren then input else inputCopy input⟩

/-- A piece of a larger buffer: the text `"a`, with a quote behind it. -/
def cutString : Buffer Byte := ⟨['"', 'a'].map ascii, fun _ => ascii '"'⟩

end Libchrome.Base.Json
