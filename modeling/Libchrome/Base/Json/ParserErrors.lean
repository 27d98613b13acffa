import Libchrome.Base.Json.ParserContract

/-!
# Errors are reported

What fails reports an error and what makes a value reports none, but for a number that is complete and no finite double:
`ConsumeNumber` then returns `NULL` and reports nothing.
-/

namespace Libchrome.Base.Json
open Library.Bytes Library.Cursor NumberConversions Utf8

variable {D : Type} {p : Parser D} {depth levels : Nat} {s s' : State} {token : Token} {c : Byte} {bytes rest : List Byte}
  {sites : List Site} {α γ : Type}

/-! ### Steps that report nothing -/

theorem Moved.errorCode (moved : Moved s s') : s'.errorCode = s.errorCode := by
  obtain ⟨count, rfl⟩ := moved
  rfl

theorem eatFrom_errorCode (fuel : Nat) (s : State) : (eatFrom p fuel s).errorCode = s.errorCode := by
  induction fuel generalizing s with
  | zero => rfl
  | succ fuel ih =>
    simp only [eatFrom]
    split_ifs
    · exact ih _
    · exact ih _
    · obtain ⟨count, there, _⟩ := eatComment_moved (p := p) s
      rcases eaten : eatComment p s with ⟨_ | _, s'⟩
      · rw [eaten] at there
        exact Moved.errorCode ⟨count, there⟩
      · rw [eaten] at there
        exact (ih s').trans (Moved.errorCode ⟨count, there⟩)
    · rfl
    · rfl

theorem getNextToken_errorCode (s : State) : (getNextToken p s).2.errorCode = s.errorCode := by
  rw [getNextToken]
  split_ifs
  · exact eatFrom_errorCode _ s
  · exact eatFrom_errorCode _ s

theorem consumeStringFrom_errorCode (fuel : Nat) (string : StringBuilder) (s : State) :
    match consumeStringFrom p fuel string s with
    | (some _, s') => s'.errorCode = s.errorCode
    | (none, s') => s'.errorCode ≠ .noError := by
  have isSyntaxError : JsonParseError.syntaxError ≠ .noError := by decide
  induction fuel generalizing string s with
  | zero => exact isSyntaxError
  | succ fuel ih =>
    rw [consumeStringFrom]
    rcases cbu8Next p.source.read s.index p.source.text.length with ⟨c, next⟩
    dsimp only
    by_cases more : canConsume p 1 s = true
    · rw [if_pos more]
      by_cases invalid : c < 0 ∨ ¬ isValidCharacter c = true
      · rw [if_pos invalid]
        exact (by decide : JsonParseError.unsupportedEncoding ≠ .noError)
      · rw [if_neg invalid]
        by_cases backslash : c = 0x5c
        · rw [if_pos backslash]
          by_cases further : canConsume p 1 { s with pos := s.index, index := next } = true
          · rw [if_neg (not_not.mpr further)]
            have moved := consumeEscape_moved (p := p) (string.convert p.source) { s with pos := s.index, index := next }
            rcases escaped : consumeEscape p (string.convert p.source) { s with pos := s.index, index := next } with
              ⟨_ | string, s'⟩ <;> rw [escaped] at moved
            · obtain ⟨code, columnAdjust, there, isError, _, _, rfl⟩ := moved
              exact isError
            · have onwards := ih string s'
              rw [moved.errorCode] at onwards
              exact onwards
          · rw [if_pos further]
            exact (by decide : JsonParseError.invalidEscape ≠ .noError)
        · rw [if_neg backslash]
          by_cases quote : c = 0x22
          · rw [if_pos quote]
          · rw [if_neg quote]
            exact ih _ _
    · rw [if_neg more]
      exact isSyntaxError

theorem consumeStringRaw_errorCode (s : State) :
    match consumeStringRaw p s with
    | (some _, s') => s'.errorCode = s.errorCode
    | (none, s') => s'.errorCode ≠ .noError := by
  rw [consumeStringRaw]
  split_ifs
  · exact (by decide : JsonParseError.unexpectedToken ≠ .noError)
  · exact consumeStringFrom_errorCode _ _ (nextChar s)

/-! ### What is reported -/

variable (p) in
/-- No number that the reading comes by is complete but no finite double. -/
def ReadNumbers (sites : List Site) : Prop := ∀ bytes, Site.number bytes ∈ sites → unreadNumber p bytes = false

variable (p) in
/-- A value without an error, or an error; unless there is a number that is not read. -/
def Reports (sites : List Site) : Outcome α → Prop
  | .value _ s => s.errorCode = .noError ∧ ReadNumbers p sites
  | .null s => s.errorCode ≠ .noError ↔ ReadNumbers p sites
  | .unfinished => False

theorem readNumbers_nil : ReadNumbers p [] := fun _ member => absurd member List.not_mem_nil

theorem readNumbers_append {others : List Site} :
    ReadNumbers p (sites ++ others) ↔ ReadNumbers p sites ∧ ReadNumbers p others := by
  constructor
  · intro both
    exact ⟨fun bytes member => both bytes (List.mem_append_left _ member),
      fun bytes member => both bytes (List.mem_append_right _ member)⟩
  · rintro ⟨first, second⟩ bytes member
    exact (List.mem_append.mp member).elim (first bytes) (second bytes)

theorem readNumbers_gap : ReadNumbers p (.gap bytes :: sites) ↔ ReadNumbers p sites := by
  constructor
  · exact fun all other member => all other (List.mem_cons_of_mem _ member)
  · rintro all other member
    rcases List.mem_cons.mp member with same | later
    · cases same
    · exact all other later

theorem readNumbers_string : ReadNumbers p (.string bytes :: sites) ↔ ReadNumbers p sites := by
  constructor
  · exact fun all other member => all other (List.mem_cons_of_mem _ member)
  · rintro all other member
    rcases List.mem_cons.mp member with same | later
    · cases same
    · exact all other later

theorem readNumbers_separatorSites (bytes : List Byte) : ReadNumbers p (separatorSites bytes) := by
  rw [separatorSites, readNumbers_gap]
  split
  next => exact readNumbers_gap.mpr readNumbers_nil
  next => exact readNumbers_nil

theorem reports_error {there : State} (isError : there.errorCode ≠ .noError) (allRead : ReadNumbers p sites) :
    Reports (α := α) p sites (.null there) := iff_of_true isError allRead

/-! ### Values that are no containers -/

theorem consumeString_reports (clean : s.errorCode = .noError) (bytes : List Byte) :
    Reports p [.string bytes] (consumeString p s) := by
  have errorCode := consumeStringRaw_errorCode (p := p) s
  rw [consumeString_eq]
  rcases consumed : consumeStringRaw p s with ⟨_ | string, s'⟩ <;> rw [consumed] at errorCode
  · exact reports_error errorCode (readNumbers_string.mpr readNumbers_nil)
  · exact ⟨errorCode.trans clean, readNumbers_string.mpr readNumbers_nil⟩

theorem readNumbers_number : ReadNumbers p [.number bytes] ↔ unreadNumber p bytes = false := by
  constructor
  · exact fun all => all bytes List.mem_cons_self
  · intro read other member
    obtain rfl := Site.number.inj (List.mem_singleton.mp member)
    exact read

theorem consumeNumber_reports (at_ : At p depth s bytes) (some_ : bytes ≠ []) (clean : s.errorCode = .noError) :
    Reports p [.number bytes] (consumeNumber p s) := by
  have isError : JsonParseError.syntaxError ≠ .noError := by decide
  rcases consumeNumber_eq at_ some_ with ⟨s', passed, failed⟩ | ⟨rest, s', passed, isIn, eq⟩
  · rw [failed]
    refine reports_error isError (readNumbers_number.mpr ?_)
    rw [unreadNumber, passed.fails]
  · obtain ⟨token, _⟩ := getNextToken_at (at_.passed passed)
    have quiet : (getNextToken p s').2.errorCode = .noError := by
      obtain ⟨count, moved, _⟩ := passed
      rw [getNextToken_errorCode, ← clean]
      exact Moved.errorCode ⟨count, moved⟩
    have unread : unreadNumber p bytes = (endsNumber (tokenAt (skip rest).rest) &&
        (numberValue p.doubles (bytes.take (bytes.length - rest.length))).isNone) := by
      rw [unreadNumber, isIn]
    rw [eq, token, slice_passed at_ passed]
    by_cases ends : endsNumber (tokenAt (skip rest).rest) = true
    · rw [if_neg (not_not.mpr ends)]
      dsimp only
      cases value : numberValue p.doubles (bytes.take (bytes.length - rest.length)) with
      | none =>
        refine iff_of_false (not_not.mpr quiet) ?_
        rw [readNumbers_number, unread, ends, value]
        exact Bool.noConfusion
      | some number =>
        refine ⟨quiet, ?_⟩
        rw [readNumbers_number, unread, value, Option.isNone_some, Bool.and_false]
    · rw [if_pos ends]
      refine reports_error isError (readNumbers_number.mpr ?_)
      rw [unread, Bool.eq_false_iff.mpr ends, Bool.false_and]

theorem consumeLiteral_reports (at_ : At p depth s (c :: rest)) (begins : tokenOf c = token)
    (literal : token = .boolTrue ∨ token = .boolFalse ∨ token = .null) (clean : s.errorCode = .noError) :
    Reports p [] (consumeLiteral p s) := by
  rw [consumeLiteral_eq at_ begins literal]
  split
  next => exact ⟨clean, readNumbers_nil⟩
  next => exact reports_error (by decide : JsonParseError.syntaxError ≠ .noError) readNumbers_nil

theorem parseScalar_reports (levels : Nat) (at_ : At p depth s bytes) (scalar : opensContainer (tokenAt bytes) = false)
    (clean : s.errorCode = .noError) : Reports p (scalarSites bytes) (parseToken p (levels + 1) (tokenAt bytes) s) := by
  have isError : JsonParseError.unexpectedToken ≠ .noError := by decide
  cases begins : tokenAt bytes with
  | objectBegin =>
    rw [begins] at scalar
    cases scalar
  | arrayBegin =>
    rw [begins] at scalar
    cases scalar
  | string =>
    rw [parseToken, scalarSites, begins]
    exact consumeString_reports clean bytes
  | number =>
    rw [parseToken, scalarSites, begins]
    exact consumeNumber_reports at_ (tokenAt_ne_nil begins (by decide)) clean
  | boolTrue =>
    obtain ⟨c, rest, rfl⟩ := List.exists_cons_of_ne_nil (tokenAt_ne_nil begins (by decide))
    rw [parseToken, scalarSites, begins]
    exact consumeLiteral_reports at_ begins (.inl rfl) clean
  | boolFalse =>
    obtain ⟨c, rest, rfl⟩ := List.exists_cons_of_ne_nil (tokenAt_ne_nil begins (by decide))
    rw [parseToken, scalarSites, begins]
    exact consumeLiteral_reports at_ begins (.inr (.inl rfl)) clean
  | null =>
    obtain ⟨c, rest, rfl⟩ := List.exists_cons_of_ne_nil (tokenAt_ne_nil begins (by decide))
    rw [parseToken, scalarSites, begins]
    exact consumeLiteral_reports at_ begins (.inr (.inr rfl)) clean
  | _ =>
    rw [parseToken, scalarSites, begins]
    · exact reports_error isError readNumbers_nil
    all_goals decide

/-! ### Containers -/

theorem Reports.prepend {first : List Site} {outcome : Outcome α} (reports : Reports p sites outcome)
    (allRead : ReadNumbers p first) : Reports p (first ++ sites) outcome := by
  have same : ReadNumbers p (first ++ sites) ↔ ReadNumbers p sites :=
    readNumbers_append.trans (and_iff_right allRead)
  rcases outcome with ⟨result, s⟩ | s | _
  · exact ⟨reports.1, same.mpr reports.2⟩
  · exact reports.trans same.symm
  · exact reports

theorem Reports.gap {outcome : Outcome α} (reports : Reports p sites outcome) (bytes : List Byte) :
    Reports p (.gap bytes :: sites) outcome :=
  reports.prepend (readNumbers_gap.mpr readNumbers_nil)

theorem Reports.leave {outcome : Outcome α} (reports : Reports p sites outcome) : Reports p sites outcome.leave := by
  rcases outcome with ⟨result, s⟩ | s | _
  · exact reports
  · exact reports
  · exact reports

theorem Reports.map {outcome : Outcome α} (reports : Reports p sites outcome) (f : α → γ) :
    Reports p sites (outcome.bind fun result s => .value (f result) s) := by
  rcases outcome with ⟨result, s⟩ | s | _
  · exact reports
  · exact reports
  · exact reports

theorem consumeSeparator_errorCode (close : Token) (columnAdjust : Int) (s : State) :
    match consumeSeparator p close columnAdjust s with
    | .value _ s' => s'.errorCode = s.errorCode
    | .null s' => s'.errorCode ≠ .noError
    | .unfinished => False := by
  have first := getNextToken_errorCode (p := p) (nextChar s)
  rw [consumeSeparator]
  rcases next : getNextToken p (nextChar s) with ⟨token, s'⟩
  rw [next] at first
  dsimp only at first ⊢
  by_cases comma : token = .listSeparator
  · have second := getNextToken_errorCode (p := p) (nextChar s')
    rw [if_pos comma]
    rcases further : getNextToken p (nextChar s') with ⟨token, s''⟩
    rw [further] at second
    dsimp only at second ⊢
    by_cases trailing : token = close ∧ ¬ p.options.allowTrailingCommas = true
    · rw [if_pos trailing]
      exact (by decide : JsonParseError.trailingComma ≠ .noError)
    · rw [if_neg trailing]
      exact second.trans first
  · rw [if_neg comma]
    by_cases closed : token = close
    · rw [if_neg (not_not.mpr closed)]
      exact first
    · rw [if_pos closed]
      exact (by decide : JsonParseError.syntaxError ≠ .noError)

section Elements

variable {close : Token} {consumeOne : Token → State → Outcome α} {readOne : List Byte → Option (Read α)}
  {oneSites : List Byte → List Site}

theorem consumeElements_reports (columnAdjust : Int) (add : γ → α → γ) (closes : close ≠ .endOfInput)
    (advances : Advances readOne)
    (each : ∀ {s bytes}, At p depth s bytes →
      ∃ cut open_, Follows p depth cut open_ (readOne bytes) (consumeOne (tokenAt bytes) s))
    (eachReports : ∀ {s bytes}, At p depth s bytes → s.errorCode = .noError →
      Reports p (oneSites bytes) (consumeOne (tokenAt bytes) s))
    {fuel readFuel : Nat} (enough : bytes.length < fuel) (readEnough : bytes.length < readFuel) (at_ : At p depth s bytes)
    (clean : s.errorCode = .noError) (container : γ) :
    Reports p (elementsSites p.options.allowTrailingCommas close readOne oneSites readFuel bytes)
      (consumeElements p close columnAdjust consumeOne add fuel (tokenAt bytes) container s) := by
  induction fuel generalizing readFuel s bytes container with
  | zero => exact absurd enough (Nat.not_lt_zero _)
  | succ fuel ih =>
    cases readFuel with
    | zero => exact absurd readEnough (Nat.not_lt_zero _)
    | succ readFuel =>
      rw [consumeElements, elementsSites]
      by_cases closed : tokenAt bytes = close
      · rw [if_pos closed, if_pos closed]
        exact ⟨clean, readNumbers_nil⟩
      · rw [if_neg closed, if_neg closed]
        obtain ⟨cut, open_, one⟩ := each at_
        have reports := eachReports at_ clean
        rcases consumed : consumeOne (tokenAt bytes) s with ⟨element, s'⟩ | s' | _ <;> rw [consumed] at one reports
        · obtain ⟨clean, allRead⟩ := reports
          refine Reports.prepend ?_ allRead
          have errorCode := consumeSeparator_errorCode (p := p) close columnAdjust s'
          dsimp only [Outcome.bind]
          rcases one with ⟨_, slips, rest, isRead, behind⟩ | ⟨_, isRead, ended⟩
          · have fewer := advances bytes _ isRead
            have separator := consumeSeparator_follows close columnAdjust behind.nextChar
            rw [isRead]
            dsimp only at fewer ⊢
            refine Reports.prepend ?_ (readNumbers_separatorSites rest)
            rcases between : consumeSeparator p close columnAdjust s' with ⟨token, s''⟩ | s'' | _ <;>
              rw [between] at separator errorCode
            · obtain ⟨gapSlips, others, isGap, rfl, there⟩ := separator
              have further := readSeparator_le isGap
              rw [isGap]
              dsimp only at further ⊢
              exact ih (by omega) (by omega) there (errorCode.trans clean) (add container element)
            · rw [show readSeparator _ _ _ = none from separator]
              exact reports_error errorCode readNumbers_nil
            · exact separator.elim
          · have separator := consumeSeparator_follows close columnAdjust ended.nextChar
            rw [isRead]
            rcases between : consumeSeparator p close columnAdjust s' with ⟨token, s''⟩ | s'' | _ <;>
              rw [between] at separator errorCode
            · obtain ⟨_, _, isGap, _⟩ := separator
              rw [readSeparator_nil _ closes] at isGap
              cases isGap
            · exact reports_error errorCode readNumbers_nil
            · exact separator.elim
        · have others : ∀ {sites}, ReadNumbers p sites → Reports (α := γ) p (oneSites bytes ++ sites) (.null s') :=
            fun allRead => reports.trans (readNumbers_append.trans (and_iff_left allRead)).symm
          rcases one.2 with isRead | ⟨_, value, slips, isRead⟩
          · rw [isRead]
            exact others readNumbers_nil
          · rw [isRead]
            dsimp only
            rw [readSeparator_nil _ closes, List.append_nil]
            exact others (readNumbers_separatorSites [])
        · exact one.elim

end Elements

theorem consumeEntry_reports {parse : Token → State → Outcome (Value D)} {oneSites : List Byte → List Site}
    (eachReports : ∀ {s bytes}, At p depth s bytes → s.errorCode = .noError →
      Reports p (oneSites bytes) (parse (tokenAt bytes) s)) (at_ : At p depth s bytes) (clean : s.errorCode = .noError) :
    Reports p (entrySites oneSites bytes) (consumeEntry p parse (tokenAt bytes) s) := by
  have isSyntaxError : JsonParseError.syntaxError ≠ .noError := by decide
  rw [consumeEntry, entrySites]
  by_cases begins : tokenAt bytes = .string
  · obtain ⟨rest, rfl⟩ := exists_rest_of_tokenAt begins rfl
    have follows := consumeStringRaw_follows at_
    have errorCode := consumeStringRaw_errorCode (p := p) s
    rw [if_neg (not_not.mpr begins), if_neg (not_not.mpr begins), readString]
    have onString : ∀ {sites} {outcome : Outcome (List Byte × Value D)}, Reports p sites outcome →
        Reports p (.string (ascii '"' :: rest) :: sites) outcome :=
      fun reports => reports.prepend (readNumbers_string.mpr readNumbers_nil)
    refine onString ?_
    rcases consumed : consumeStringRaw p s with ⟨_ | key, s'⟩ <;> rw [consumed] at follows errorCode
    · refine reports_error errorCode ?_
      cases ending : readQuoted (ascii '"' :: rest) with
      | closed read =>
        rw [ending] at follows
        exact follows.elim
      | runsOut => exact readNumbers_nil
      | malformed => exact readNumbers_nil
    · dsimp only
      have quiet := (getNextToken_errorCode (p := p) (nextChar s')).trans (errorCode.trans clean)
      cases ending : readQuoted (ascii '"' :: rest) with
      | closed read =>
        rw [ending] at follows
        obtain ⟨token, there⟩ := getNextToken_at follows.2.nextChar
        dsimp only
        rw [token]
        refine Reports.gap ?_ read.rest
        by_cases pair : tokenAt (skip read.rest).rest = .objectPairSeparator
        · rw [if_neg (not_not.mpr pair), if_neg (not_not.mpr pair)]
          obtain ⟨next, onwards⟩ := getNextToken_at there.tail
          have quietStill := (getNextToken_errorCode (p := p) (nextChar (getNextToken p (nextChar s')).2)).trans quiet
          rw [next]
          exact ((eachReports onwards quietStill).map fun value => (key.asString p.source, value)).gap _
        · rw [if_pos pair, if_pos pair]
          exact reports_error isSyntaxError readNumbers_nil
      | runsOut =>
        rw [ending] at follows
        have ended : Ended p depth s' := ⟨follows.2.1, follows.2.2.1, follows.2.2.2⟩
        obtain ⟨token, _⟩ := getNextToken_at ended.nextChar
        have noSeparator : (getNextToken p (nextChar s')).1 ≠ .objectPairSeparator := by
          rw [token]
          decide
        rw [if_pos noSeparator]
        exact reports_error isSyntaxError readNumbers_nil
      | malformed =>
        rw [ending] at follows
        cases follows
  · rw [if_pos begins, if_pos begins]
    exact reports_error (by decide : JsonParseError.unquotedDictionaryKey ≠ .noError) readNumbers_nil

theorem opened_errorCode (s : State) : (opened p s).errorCode = s.errorCode := getNextToken_errorCode _

theorem consumeContainer_reports {begin : Byte} {loop : Token → State → Outcome (Value D)}
    (at_ : At p depth s (begin :: rest)) (room : depth + 1 < kStackMaxDepth)
    (reports : Reports p sites (loop (tokenAt (skip rest).rest) (opened p s))) :
    Reports p (.gap rest :: sites) (consumeContainer p begin loop s) := by
  rw [consumeContainer_eq at_, if_neg (Nat.not_le.mpr room)]
  exact reports.leave.gap rest

theorem parseToken_tooDeep (deep : depth + 1 = kStackMaxDepth) (at_ : At p depth s bytes)
    (opens : opensContainer (tokenAt bytes) = true) (levels : Nat) :
    parseToken p (levels + 1) (tokenAt bytes) s =
      (Outcome.null (reportError .tooMuchNesting 1 { s with stackDepth := s.stackDepth + 1 })).leave := by
  rw [opensContainer, Bool.or_eq_true, decide_eq_true_eq, decide_eq_true_eq] at opens
  rcases opens with begins | begins
  · obtain ⟨rest, rfl⟩ := exists_rest_of_tokenAt begins rfl
    rw [begins, parseToken, consumeDictionary, consumeContainer_eq at_, if_pos (Nat.le_of_eq deep.symm)]
  · obtain ⟨rest, rfl⟩ := exists_rest_of_tokenAt begins rfl
    rw [begins, parseToken, consumeList, consumeContainer_eq at_, if_pos (Nat.le_of_eq deep.symm)]

theorem valueSites_scalar (doubles : Doubles D) (allowTrailingCommas : Bool) (levels : Nat)
    (scalar : opensContainer (tokenAt bytes) = false) :
    valueSites doubles allowTrailingCommas levels bytes = scalarSites bytes := by
  cases levels with
  | zero => rfl
  | succ levels =>
    rw [valueSites]
    split
    next begins =>
      rw [begins] at scalar
      cases scalar
    next begins =>
      rw [begins] at scalar
      cases scalar
    next => rfl

theorem scalarSites_container (opens : opensContainer (tokenAt bytes) = true) : scalarSites bytes = [] := by
  rw [opensContainer, Bool.or_eq_true, decide_eq_true_eq, decide_eq_true_eq] at opens
  rw [scalarSites]
  rcases opens with begins | begins
  all_goals rw [begins]

/-! ### The root -/

theorem parseToken_reports (room : depth + levels + 1 = kStackMaxDepth) (at_ : At p depth s bytes)
    (clean : s.errorCode = .noError) :
    Reports p (valueSites p.doubles p.options.allowTrailingCommas levels bytes)
      (parseToken p (levels + 1) (tokenAt bytes) s) := by
  induction levels generalizing depth s bytes with
  | zero =>
    cases scalar : opensContainer (tokenAt bytes) with
    | false => exact parseScalar_reports 0 at_ scalar clean
    | true =>
      rw [parseToken_tooDeep room at_ scalar, valueSites, scalarSites_container scalar]
      exact reports_error (by decide : JsonParseError.tooMuchNesting ≠ .noError) readNumbers_nil
  | succ levels ih =>
    cases scalar : opensContainer (tokenAt bytes) with
    | false =>
      rw [valueSites_scalar _ _ _ scalar]
      exact parseScalar_reports (levels + 1) at_ scalar clean
    | true =>
      have each : ∀ {s bytes}, At p (depth + 1) s bytes → ∃ cut open_, Follows p (depth + 1) cut open_
          (readValue p.doubles p.options.allowTrailingCommas levels bytes) (parseToken p (levels + 1) (tokenAt bytes) s) :=
        fun at_ => ⟨_, _, parseToken_follows (by omega) at_⟩
      have eachReports : ∀ {s bytes}, At p (depth + 1) s bytes → s.errorCode = .noError →
          Reports p (valueSites p.doubles p.options.allowTrailingCommas levels bytes)
            (parseToken p (levels + 1) (tokenAt bytes) s) :=
        fun at_ clean => ih (by omega) at_ clean
      have advances := readValue_advances p.doubles p.options.allowTrailingCommas levels
      rw [opensContainer, Bool.or_eq_true, decide_eq_true_eq, decide_eq_true_eq] at scalar
      rcases scalar with begins | begins
      · obtain ⟨rest, rfl⟩ := exists_rest_of_tokenAt begins rfl
        have inner : At p (depth + 1) (opened p s) (skip rest).rest := opened_at at_
        rw [begins, parseToken, consumeDictionary, valueSites, begins]
        refine consumeContainer_reports at_ (by omega) ?_
        exact (consumeElements_reports 0
          (fun (dict : List (List Byte × Value D)) entry => setWithoutPathExpansion dict entry.1 entry.2)
          (show Token.objectEnd ≠ Token.endOfInput by decide) (readEntry_advances advances) (consumeEntry_follows each)
          (consumeEntry_reports eachReports) inner.fuel (Nat.lt_succ_of_le (skip_le rest)) inner
          ((opened_errorCode s).trans clean) []).map Value.dictionary
      · obtain ⟨rest, rfl⟩ := exists_rest_of_tokenAt begins rfl
        have inner : At p (depth + 1) (opened p s) (skip rest).rest := opened_at at_
        rw [begins, parseToken, consumeList, valueSites, begins]
        refine consumeContainer_reports at_ (by omega) ?_
        exact (consumeElements_reports 1 (fun (list : List (Value D)) item => list ++ [item])
          (show Token.arrayEnd ≠ Token.endOfInput by decide) advances each eachReports inner.fuel
          (Nat.lt_succ_of_le (skip_le rest)) inner ((opened_errorCode s).trans clean) []).map Value.list

/-- `NULL` goes with an error code, and a value with none. -/
def ErrorsReported : Outcome α → Prop
  | .value _ s => s.errorCode = .noError
  | .null s => s.errorCode ≠ .noError
  | .unfinished => False

theorem afterMark_errorCode (p : Parser D) : (afterMark p).errorCode = .noError := by
  rw [afterMark]
  split
  next => rfl
  next => rfl

theorem newParser_text (doubles : Doubles D) (options : Options) (input : Buffer Byte) :
    (newParser doubles options input).source.text = input.text := by
  rw [newParser]
  dsimp only
  split
  next => rfl
  next => rfl

theorem readNumbers_documentSites (doubles : Doubles D) (allowTrailingCommas : Bool) (levels : Nat) (text : List Byte) :
    ReadNumbers p (documentSites doubles allowTrailingCommas levels text) ↔
      ReadNumbers p (valueSites doubles allowTrailingCommas levels (skip (pastByteOrderMark text)).rest) := by
  rw [documentSites, List.cons_append, readNumbers_gap, readNumbers_append]
  refine and_iff_left ?_
  cases readValue doubles allowTrailingCommas levels (skip (pastByteOrderMark text)).rest with
  | none => exact readNumbers_nil
  | some root => exact readNumbers_gap.mpr readNumbers_nil

theorem parseFrom_errorsReported (p : Parser D) : ErrorsReported (parseFrom p start) ↔
    ReadNumbers p (valueSites p.doubles p.options.allowTrailingCommas (kStackMaxDepth - 1)
      (skip (pastByteOrderMark p.source.text)).rest) := by
  obtain ⟨token, there⟩ := getNextToken_at (afterMark_at p)
  have clean := (getNextToken_errorCode (p := p) (afterMark p)).trans (afterMark_errorCode p)
  obtain ⟨levels, room⟩ : ∃ levels, 0 + levels + 1 = kStackMaxDepth := ⟨99, rfl⟩
  have reports := parseToken_reports room there clean
  have last : kStackMaxDepth - 1 = levels := by omega
  change ErrorsReported ((parseNextToken p kStackMaxDepth (afterMark p)).bind _) ↔ _
  rw [parseNextToken, last]
  dsimp only
  rw [token, ← room, Nat.zero_add]
  rcases outcome : parseToken p (levels + 1) (tokenAt (skip (pastByteOrderMark p.source.text)).rest)
    (getNextToken p (afterMark p)).2 with ⟨root, s⟩ | s | _ <;> rw [outcome] at reports
  · have isError : JsonParseError.unexpectedDataAfterRoot ≠ .noError := by decide
    have first := (getNextToken_errorCode (p := p) s).trans reports.1
    have second := (getNextToken_errorCode (p := p) (nextChar (getNextToken p s).2)).trans first
    refine iff_of_true ?_ reports.2
    dsimp only [Outcome.bind]
    split_ifs
    · exact isError
    · exact second
    · exact isError
    · exact first
  · exact reports
  · exact reports.elim

/-- The state in which a parser stops. -/
def Outcome.final : Outcome α → Option State
  | .value _ s | .null s => some s
  | .unfinished => none

/-- A number out of the range of doubles. -/
def hugeNumber : Buffer Byte := ⟨['1', 'e', '9', '9', '9'].map ascii, fun _ => 0⟩

end Libchrome.Base.Json
