import Libchrome.Base.Json.ParserStrings

/-! The loop of `ConsumeStringRaw`, character by character, and the strings that it accepts. -/

namespace Libchrome.Base.Json
open Library.Bytes Library.Cursor NumberConversions Utf8

variable {D : Type} {p : Parser D} {depth : Nat} {s : State} {c : Byte} {bytes rest decoded : List Byte}
  {string : StringBuilder}

theorem hexCharacter_eq (n : Nat) : hexCharacter n = cbu8Append n := by
  rw [hexCharacter]
  by_cases single : n ≤ 0x7f
  · rw [if_pos (by rw [kExtendedASCIIStart]; omega), cbu8Append, if_pos single, BitVec.ofInt_natCast]
  · rw [if_neg (by rw [kExtendedASCIIStart]; omega), Int.toNat_natCast]

theorem decodeFirst_ahead (ahead : p.source.text.drop s.index = c :: rest) : decodeFirst (c :: rest) =
    if isValidCharacter (cbu8Next p.source.read s.index p.source.text.length).1 then
      some ((cbu8Next p.source.read s.index p.source.text.length).1.toNat,
        (c :: rest).drop ((cbu8Next p.source.read s.index p.source.text.length).2 - s.index))
    else none := by
  have inside := Buffer.lt_of_drop ahead
  have length := Buffer.length_of_drop ahead
  exact decodeFirst_of_holds (holds_of_drop ahead) (by omega) inside

/-- The parser on a character that it has decoded. -/
structure Decoded (p : Parser D) (s : State) (bytes : List Byte) (n : Nat) (behind : List Byte) : Prop where
  next : cbu8Next p.source.read s.index p.source.text.length = ((n : Int), s.index + (cbu8Append n).length)
  valid : isValidCharacter n = true
  first : decodeFirst bytes = some (n, behind)
  split : bytes = cbu8Append n ++ behind

theorem exists_decoded (ahead : p.source.text.drop s.index = c :: rest)
    (valid : isValidCharacter (cbu8Next p.source.read s.index p.source.text.length).1 = true) :
    ∃ n behind, Decoded p s (c :: rest) n behind := by
  obtain ⟨n, next, _, _, room⟩ := exists_of_cbu8Next (Buffer.lt_of_drop ahead) (nonneg_of_isValidCharacter valid)
  have first := decodeFirst_ahead ahead
  rw [if_pos valid, next, Int.toNat_natCast, Nat.add_sub_cancel_left] at first
  rw [next] at valid
  exact ⟨n, _, next, valid, first, (eq_append_of_decodeFirst first (List.cons_ne_nil c rest)).2⟩

variable {n : Nat} {behind : List Byte}

theorem Decoded.small (here : Decoded p s bytes n behind) : n ≤ 0x10ffff :=
  le_of_isValidCodepoint (isValidCodepoint_of_isValidCharacter here.valid)

section
variable (here : Decoded p s (c :: rest) n behind)
include here

theorem Decoded.ascii_iff : n < 0x80 ↔ c.toNat < 0x80 := by
  have split := here.split
  have small := here.small
  rw [cbu8Append] at split
  split_ifs at split
  all_goals
    have first := congrArg BitVec.toNat (List.cons.inj split).1
    rw [BitVec.toNat_ofNat] at first
    omega

theorem Decoded.single (small : n < 0x80) :
    c = BitVec.ofNat 8 n ∧ behind = rest := by
  have split := here.split
  rw [cbu8Append, if_pos (by omega)] at split
  obtain ⟨first, others⟩ := List.cons.inj split
  exact ⟨first, others.symm⟩

theorem Decoded.eq_ascii {letter : Byte} (small : letter.toNat < 0x80) :
    n = letter.toNat ↔ c = letter := by
  constructor
  · intro same
    obtain ⟨first, _⟩ := here.single (by omega)
    rw [first, same, BitVec.ofNat_toNat, BitVec.setWidth_eq]
  · rintro rfl
    have single := here.single (here.ascii_iff.mpr small)
    have value := congrArg BitVec.toNat single.1
    rw [BitVec.toNat_ofNat] at value
    have := here.ascii_iff.mpr small
    omega

end

/-- The state in which a round has decoded its character. -/
def decodedState (s : State) (next : Nat) : State := { s with pos := s.index, index := next }

theorem consumeStringFrom_invalid (fuel : Nat) (string : StringBuilder) (more : canConsume p 1 s = true)
    (invalid : ¬ isValidCharacter (cbu8Next p.source.read s.index p.source.text.length).1 = true) :
    (consumeStringFrom p (fuel + 1) string s).1 = none := by
  rw [consumeStringFrom, if_pos more]
  rcases next : cbu8Next p.source.read s.index p.source.text.length with ⟨n, behind⟩
  rw [next] at invalid
  dsimp only
  rw [if_pos (Or.inr invalid)]

/-- A round of the loop. -/
theorem consumeStringFrom_decoded (fuel : Nat) (string : StringBuilder) (more : canConsume p 1 s = true)
    (here : Decoded p s (c :: rest) n behind) (inside : s.index < p.source.text.length) :
    consumeStringFrom p (fuel + 1) string s =
      let here := decodedState s (s.index + (cbu8Append n).length)
      if c = ascii '\\' then
        match consumeEscape p (string.convert p.source) here with
        | (some string, s) => consumeStringFrom p fuel string s
        | (none, s) => (none, s)
      else if c = ascii '"' then (some string, { here with index := here.index - 1 })
      else consumeStringFrom p fuel (decodeUTF8 p.source n string) here := by
  have backslash : (n : Int) = 0x5c ↔ c = ascii '\\' := by
    rw [← here.eq_ascii (show (ascii '\\').toNat < 0x80 by decide)]
    exact Int.natCast_inj (m := n) (n := 0x5c)
  have quote : (n : Int) = 0x22 ↔ c = ascii '"' := by
    rw [← here.eq_ascii (show (ascii '"').toNat < 0x80 by decide)]
    exact Int.natCast_inj (m := n) (n := 0x22)
  have further : canConsume p 1 { s with pos := s.index, index := s.index + (cbu8Append n).length } = true :=
    canConsume_iff.mpr inside
  rw [consumeStringFrom, if_pos more, here.next]
  simp only [here.valid, not_true_eq_false, or_false, backslash, quote, ite_decodeUTF8, further, if_false]
  rw [if_neg (by omega)]
  rfl

/-! ### The run of the loop -/

theorem readHex_shorter {count : Nat} {read : Read Int} (digits : readHex count bytes = some read) :
    read.rest.length + count = bytes.length := by
  unfold readHex at digits
  split at digits
  next room =>
    obtain ⟨value, _, rfl⟩ := Option.map_eq_some_iff.mp digits
    rw [List.length_drop]
    omega
  next => cases digits

variable {read : Read (List Byte)}

theorem readLow_shorter {high : Int} (low : readLow high bytes = some read) : read.rest.length < bytes.length := by
  match bytes with
  | backslash :: letter :: rest =>
    rw [readLow] at low
    split at low
    next =>
      cases digits : readHex 4 rest with
      | none =>
        rw [digits] at low
        cases low
      | some value =>
        rw [digits] at low
        have shorter := readHex_shorter digits
        dsimp only at low
        split at low
        next =>
          cases low
          rw [List.length_cons, List.length_cons]
          dsimp only
          omega
        next => cases low
    next => cases low

theorem readUtf16_shorter (units : readUtf16 bytes = some read) : read.rest.length < bytes.length := by
  rw [readUtf16] at units
  cases digits : readHex 4 bytes with
  | none =>
    rw [digits] at units
    cases units
  | some high =>
    rw [digits] at units
    have shorter := readHex_shorter digits
    dsimp only at units
    split_ifs at units
    · obtain ⟨low, isLow, rfl⟩ := Option.map_eq_some_iff.mp units
      have fewer := readLow_shorter isLow
      dsimp only
      omega
    · cases units
      dsimp only
      omega

theorem readEscape_shorter (escape : readEscape bytes = some read) : read.rest.length < bytes.length := by
  cases bytes with
  | nil => cases escape
  | cons letter rest =>
    rw [readEscape] at escape
    rw [List.length_cons]
    split_ifs at escape
    · obtain ⟨value, digits, rfl⟩ := Option.map_eq_some_iff.mp escape
      have shorter := readHex_shorter digits
      show value.rest.length < _
      omega
    · exact (readUtf16_shorter escape).trans (Nat.lt_succ_self _)
    · obtain ⟨byte, _, rfl⟩ := Option.map_eq_some_iff.mp escape
      exact Nat.lt_succ_self _

theorem readCharacter_shorter (some_ : bytes ≠ []) (isRead : readCharacter bytes = some read) :
    read.rest.length < bytes.length := by
  rw [readCharacter] at isRead
  cases first : decodeFirst bytes with
  | none =>
    rw [first] at isRead
    cases isRead
  | some decoded =>
    obtain ⟨n, behind⟩ := decoded
    rw [first] at isRead
    have lengths := congrArg List.length (eq_append_of_decodeFirst first some_).2
    have positive := length_cbu8Append n
    rw [List.length_append] at lengths
    dsimp only at isRead
    split_ifs at isRead positive
    all_goals
      first
      | have shorter := readEscape_shorter isRead
        omega
      | cases isRead
        dsimp only
        omega

/-- The bytes that a character takes make the loop shorter. -/
theorem Decoded.shorter (here : Decoded p s bytes n behind) :
    behind.length + (cbu8Append n).length = bytes.length ∧ 0 < (cbu8Append n).length := by
  have split := congrArg List.length here.split
  rw [List.length_append] at split
  have length := length_cbu8Append n
  split_ifs at length
  all_goals omega

theorem Decoded.inString (here : Decoded p s bytes n behind) (ahead : p.source.text.drop s.index = bytes)
    (depthSame : s.stackDepth = depth) :
    InString p depth (decodedState s (s.index + (cbu8Append n).length)) behind where
  ahead := Buffer.drop_add_of_drop (ahead.trans here.split)
  order := Nat.le_add_right _ _
  within _ := by
    have length := Buffer.length_of_drop ahead
    have shorter := here.shorter
    show s.index + (cbu8Append n).length ≤ _
    omega
  depth := depthSame

section
variable (here : Decoded p s (c :: rest) n behind)
include here

/-- The parser on a backslash. -/
theorem Decoded.on_backslash (in_ : InString p depth s (c :: rest))
    (backslash : c = ascii '\\') :
    In p depth (decodedState s (s.index + (cbu8Append n).length)) (c :: rest) ∧ behind = rest := by
  have small : n = 0x5c := (here.eq_ascii (show (ascii '\\').toNat < 0x80 by decide)).mpr backslash
  refine ⟨⟨?_, in_.ahead, in_.depth⟩, (here.single (by omega)).2⟩
  rw [small]
  rfl

/-- A character that is neither a quote nor a backslash is read as it is. -/
theorem Decoded.readCharacter (notBackslash : c ≠ ascii '\\') :
    readCharacter (c :: rest) = some ⟨cbu8Append n, if n < 0x20 then 1 else 0, behind⟩ := by
  have other : n ≠ 0x5c := mt (here.eq_ascii (show (ascii '\\').toNat < 0x80 by decide)).mp notBackslash
  rw [Json.readCharacter, here.first]
  exact if_neg other

theorem Decoded.built (ahead : p.source.text.drop s.index = c :: rest)
    (built : Built p string decoded s.index) :
    Built p (decodeUTF8 p.source n string) (decoded ++ cbu8Append n)
      (decodedState s (s.index + (cbu8Append n).length)).index := by
  rw [← hexCharacter_eq n]
  refine built_decodeUTF8 built fun point => ?_
  have small : n < 0x80 := by
    rw [kExtendedASCIIStart] at point
    omega
  rw [hexCharacter_eq, Buffer.read_of_drop ahead, (here.single small).1]
  refine ⟨(BitVec.ofInt_natCast 8 n).symm, ?_⟩
  show s.index + (cbu8Append n).length = s.index + 1
  rw [cbu8Append, if_pos (by omega)]
  rfl

end

theorem consumeStringFrom_follows {fuel readFuel : Nat} (enough : bytes.length < fuel) (readEnough : bytes.length ≤ readFuel)
    (in_ : InString p depth s bytes) (built : Built p string decoded s.index) :
    StringFollows p depth (s.pos < p.source.text.length) decoded (readStringFrom readFuel bytes)
      (consumeStringFrom p fuel string s) := by
  induction fuel generalizing readFuel s bytes decoded string with
  | zero => exact absurd enough (Nat.not_lt_zero _)
  | succ fuel ih =>
    cases bytes with
    | nil =>
      rw [readStringFrom]
      exact consumeStringFrom_end fuel string in_
    | cons c rest =>
      cases readFuel with
      | zero => exact absurd readEnough (Nat.not_succ_le_zero _)
      | succ readFuel =>
        have inside := Buffer.lt_of_drop in_.ahead
        have started : s.pos < p.source.text.length := in_.order.trans_lt inside
        have more : canConsume p 1 s = true := canConsume_iff.mpr started
        have char := Buffer.read_of_drop in_.ahead
        by_cases valid : isValidCharacter (cbu8Next p.source.read s.index p.source.text.length).1 = true
        · obtain ⟨n, behind, here⟩ := exists_decoded in_.ahead valid
          have shorter := here.shorter
          have there := here.inString in_.ahead in_.depth
          have goesOn : ((decodedState s (s.index + (cbu8Append n).length)).pos < p.source.text.length) =
              (s.pos < p.source.text.length) := propext (iff_of_true inside started)
          rw [consumeStringFrom_decoded fuel string more here inside, readStringFrom]
          dsimp only
          by_cases backslash : c = ascii '\\'
          · obtain ⟨on, split⟩ := here.on_backslash in_ backslash
            subst split
            have converted := string_convert p.source string
            rw [built.1] at converted
            have escaped := consumeEscape_escaped converted on
            rw [if_pos backslash, if_neg (by rw [backslash]; decide), readCharacter, here.first]
            simp only [(here.eq_ascii (show (ascii '\\').toNat < 0x80 by decide)).mpr backslash] at escaped ⊢
            rcases consumed : consumeEscape p (string.convert p.source)
              (decodedState s (s.index + (cbu8Append (ascii '\\').toNat).length)) with ⟨_ | result, s'⟩ <;>
              rw [consumed] at escaped
            · rw [show readEscape behind = none from escaped]
              rfl
            · rcases escaped with ⟨front, last, read, taken, on'⟩ | ⟨read, beyond⟩
              · rw [read]
                have fewer := readEscape_shorter read
                rw [List.length_cons] at enough readEnough
                have goesOn' : (s'.pos < p.source.text.length) = (s.pos < p.source.text.length) :=
                  propext (iff_of_true (Buffer.lt_of_drop on'.ahead) started)
                have follows := ih (show front.rest.length < fuel by omega) (show front.rest.length ≤ readFuel by omega)
                  on'.inString (built_of_string taken s'.index)
                rw [goesOn'] at follows
                exact follows.prepend
              · rw [read]
                exact consumeStringFrom_beyond fuel result beyond
          · rw [if_neg backslash]
            by_cases quote : c = ascii '"'
            · rw [if_pos quote, if_pos quote]
              have small : n = 0x22 := (here.eq_ascii (show (ascii '"').toNat < 0x80 by decide)).mpr quote
              have single : (cbu8Append n).length = 1 := by
                rw [small]
                rfl
              refine ⟨built.1.trans (List.append_nil _).symm, ?_⟩
              refine ⟨?_, inside, Buffer.drop_succ in_.ahead, in_.depth⟩
              show s.index + (cbu8Append n).length - 1 = s.index
              omega
            · rw [if_neg quote, if_neg quote, here.readCharacter backslash]
              have follows := ih (show behind.length < fuel by omega) (show behind.length ≤ readFuel by omega) there
                (here.built in_.ahead built)
              rw [goesOn] at follows
              exact follows.prepend
        · have notQuote : c ≠ ascii '"' := by
            rintro rfl
            apply valid
            rw [cbu8Next_single (by rw [char]; decide), char]
            exact isValidCharacter_ascii (by decide)
          have invalid := decodeFirst_ahead in_.ahead
          rw [if_neg valid] at invalid
          rw [readStringFrom, if_neg notQuote, readCharacter, invalid]
          exact consumeStringFrom_invalid fuel string more valid

theorem At.inString (at_ : At p depth s (c :: rest)) : InString p depth (Json.nextChar s) rest where
  ahead := by
    rw [nextChar_index, at_.index]
    exact Buffer.drop_succ at_.ahead
  order := Nat.le_of_eq (by rw [nextChar_pos, nextChar_index, at_.index])
  within inside := by
    rw [nextChar_pos] at inside
    rw [nextChar_index, at_.index]
    omega
  depth := at_.depth

/-- The builder of a string that begins. -/
theorem At.built (at_ : At p depth s (c :: rest)) :
    Built p ⟨(Json.nextChar s).pos, 0, none⟩ [] (Json.nextChar s).index := by
  refine ⟨rfl, fun _ => ?_⟩
  rw [nextChar_pos, nextChar_index, at_.index]
  rfl

theorem consumeStringRaw_quote (at_ : At p depth s (ascii '"' :: rest)) : consumeStringRaw p s =
    consumeStringFrom p (p.source.text.length + 1 - (Json.nextChar s).pos) ⟨(Json.nextChar s).pos, 0, none⟩ (Json.nextChar s) := by
  rw [consumeStringRaw, if_neg (not_not.mpr at_.current)]

theorem At.enough (at_ : At p depth s (c :: rest)) :
    rest.length < p.source.text.length + 1 - (Json.nextChar s).pos := by
  have inside := at_.inside
  have length := at_.nextChar.length
  rw [nextChar_pos] at length ⊢
  omega

theorem consumeStringRaw_follows (at_ : At p depth s (ascii '"' :: rest)) :
    StringFollows p depth (rest ≠ []) [] (readQuoted (ascii '"' :: rest)) (consumeStringRaw p s) := by
  have follows := consumeStringFrom_follows at_.enough (Nat.le_refl _) at_.inString at_.built
  have goesOn : ((Json.nextChar s).pos < p.source.text.length) = (rest ≠ []) := by
    have length := at_.nextChar.length
    rw [← List.length_pos_iff, length]
    exact propext Nat.sub_pos_iff_lt.symm
  rw [goesOn] at follows
  rw [consumeStringRaw_quote at_]
  exact follows

end Libchrome.Base.Json
