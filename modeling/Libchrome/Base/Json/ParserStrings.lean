import Libchrome.Base.Json.ParserBlanks

/-! `ConsumeStringRaw` reads the string that the text holds; where the text ends within it, a quote behind the text ends
it. -/

namespace Libchrome.Base.Json
open Library.Bytes Library.Cursor NumberConversions Utf8

variable {D : Type} (p : Parser D)

/-- Within a string the parser is on the first of these bytes, with `index_` already behind it. -/
structure In (depth : Nat) (s : State) (bytes : List Byte) : Prop where
  index : s.index = s.pos + 1
  ahead : p.source.text.drop s.pos = bytes
  depth : s.stackDepth = depth

variable {p} {depth : Nat} {s : State} {c : Byte} {bytes rest : List Byte}

theorem holds_of_drop {i : Nat} (ahead : p.source.text.drop i = bytes) : Holds p.source.read i bytes := by
  intro k inside
  have there : p.source.text.drop (i + k) = bytes[k] :: bytes.drop (k + 1) := by
    rw [← List.drop_drop, ahead]
    exact List.drop_eq_getElem_cons inside
  exact Buffer.read_of_drop there

variable {count : Nat}

theorem hexAt_of_drop {i : Nat} (ahead : p.source.text.drop i = bytes) (room : count ≤ bytes.length) :
    hexAt p i count = hexStringToInt (bytes.take count) := by
  rw [hexAt, slice_eq_take (holds_of_drop ahead) room]

namespace In

theorem current (in_ : In p depth s (c :: rest)) : current p s = c := Buffer.read_of_drop in_.ahead

theorem nextNChars {front : List Byte} (in_ : In p depth s (front ++ rest)) :
    In p depth (nextNChars front.length s) rest where
  index := by
    rw [nextNChars_index, nextNChars_pos, in_.index]
    omega
  ahead := Buffer.drop_add_of_drop in_.ahead
  depth := in_.depth

theorem nextChar (in_ : In p depth s (c :: rest)) : In p depth (nextChar s) rest :=
  In.nextNChars (show In p depth s ([c] ++ rest) from in_)

theorem length (in_ : In p depth s bytes) : bytes.length = p.source.text.length - s.pos := Buffer.length_of_drop in_.ahead

/-- The character that the parser is on counts as one to consume. -/
theorem canConsume_iff {count : Nat} (in_ : In p depth s bytes) (some_ : 0 < count) :
    canConsume p count s = true ↔ count ≤ bytes.length := by
  rw [Json.canConsume_iff, in_.length]
  omega

end In

/-! ### Builders -/

variable {builder : StringBuilder} {str : List Byte}

@[simp] theorem string_append (converted : builder.string = some str) (c : Byte) :
    (builder.append c).string = some (str ++ [c]) := by
  simp only [StringBuilder.append, converted]

@[simp] theorem string_appendString (converted : builder.string = some str) (bytes : List Byte) :
    (builder.appendString bytes).string = some (str ++ bytes) := by
  simp only [StringBuilder.appendString, converted, Option.map_some]

theorem string_convert (source : Buffer Byte) (builder : StringBuilder) :
    (builder.convert source).string = some (builder.asString source) := by
  unfold StringBuilder.asString
  cases copy : (builder.convert source).string with
  | none =>
    unfold StringBuilder.convert at copy
    split at copy
    next converted => exact absurd (converted.symm.trans copy) (Option.some_ne_none _)
    next => cases copy
  | some string => rfl

/-- `DecodeUTF8` makes the distinction that its callers make. -/
theorem ite_decodeUTF8 (source : Buffer Byte) (point : Int) (builder : StringBuilder) :
    (if point < kExtendedASCIIStart then builder.append (BitVec.ofInt 8 point) else decodeUTF8 source point builder) =
      decodeUTF8 source point builder := by
  unfold decodeUTF8
  split <;> rfl

theorem string_decodeUTF8 (source : Buffer Byte) (point : Int) (converted : builder.string = some str) :
    (decodeUTF8 source point builder).string = some (str ++ hexCharacter point) := by
  unfold decodeUTF8 hexCharacter
  split
  next => exact string_append converted _
  next =>
    have same : builder.convert source = builder := by simp only [StringBuilder.convert, converted]
    rw [same]
    exact string_appendString converted _

/-! ### Escapes -/

variable (p) in
/-- What came of an escape: its bytes were taken, or it ran over the end of the text; or it failed as its reading does. -/
def Escaped {β : Type} (depth : Nat) (taken : List Byte → β → Prop) (read : Option (Read (List Byte))) :
    Option β × State → Prop
  | (some result, s) =>
    (∃ front last, read = some front ∧ taken front.value result ∧ In p depth s (last :: front.rest)) ∨
      (read = none ∧ p.source.text.length ≤ s.pos)
  | (none, _) => read = none

theorem readHex_of_lt (short : bytes.length < count) : readHex count bytes = none := by
  rw [readHex, if_neg (Nat.not_le.mpr short)]

theorem readHex_of_le (room : count ≤ bytes.length) :
    readHex count bytes = (hexStringToInt (bytes.take count)).map fun value =>
      ⟨value, if (bytes.take count).all isHexDigit then 0 else 1, bytes.drop count⟩ := by
  rw [readHex, if_pos room]

theorem exists_split (room : count + 1 ≤ bytes.length) :
    ∃ front last, front.length = count ∧ bytes = front ++ last :: bytes.drop (count + 1) := by
  have inside : count < bytes.length := room
  refine ⟨bytes.take count, bytes[count], by rw [List.length_take]; omega, ?_⟩
  rw [← List.drop_eq_getElem_cons inside, List.take_append_drop]

theorem In.forward (in_ : In p depth s bytes) (room : count + 1 ≤ bytes.length) :
    ∃ last, In p depth (Json.nextNChars count s) (last :: bytes.drop (count + 1)) := by
  rcases exists_split room with ⟨front, last, length, split⟩
  rw [split] at in_
  have there := in_.nextNChars
  rw [length] at there
  exact ⟨last, there⟩

theorem decodeSurrogates_escaped {high : Int} (lead : isSurrogateLead high = true) (in_ : In p depth s (c :: bytes)) :
    Escaped p depth (fun value result => result = value) (readLow high bytes) (decodeSurrogates p high s) := by
  unfold decodeSurrogates
  rw [if_neg (not_not.mpr lead)]
  by_cases longer : 6 ≤ (c :: bytes).length
  · rw [if_neg (not_not.mpr ((in_.canConsume_iff (by omega)).mpr longer))]
    rcases bytes with _ | ⟨backslash, _ | ⟨letter, digits⟩⟩
    · exact absurd longer (by simp)
    · exact absurd longer (by simp)
    · have atBackslash := in_.nextChar
      have atLetter := atBackslash.nextChar
      have atDigits := atLetter.nextChar
      simp only [readLow, atBackslash.current, atLetter.current]
      by_cases first : backslash = ascii '\\'
      · by_cases second : letter = ascii 'u'
        · rw [if_neg (not_not.mpr first), if_neg (not_not.mpr second), if_pos ⟨first, second⟩]
          by_cases whole : 4 ≤ digits.length
          · rw [hexAt_of_drop atDigits.ahead whole, readHex_of_le whole]
            cases hexStringToInt (digits.take 4) with
            | none => rfl
            | some low =>
              rcases atDigits.forward whole with ⟨last, there⟩
              simp only [Option.map_some]
              split
              next => exact Or.inl ⟨_, last, rfl, rfl, there⟩
              next => rfl
          · -- The last digit is behind the text.
            rw [readHex_of_lt (Nat.lt_of_not_le whole)]
            have beyond : p.source.text.length ≤ (nextNChars 3 (nextChar (nextChar (nextChar s)))).pos := by
              have length := atDigits.length
              rw [nextNChars_pos]
              omega
            cases hexAt p (nextChar (nextChar (nextChar s))).pos 4 with
            | none => rfl
            | some low =>
              simp only
              split
              next => exact Or.inr ⟨rfl, beyond⟩
              next => rfl
        · rw [if_neg (not_not.mpr first), if_pos second, if_neg (fun both => second both.2)]
          rfl
      · rw [if_pos first, if_neg (fun both => first both.1)]
        rfl
  · rw [if_pos (by rw [in_.canConsume_iff (by omega)]; exact longer)]
    rcases bytes with _ | ⟨backslash, _ | ⟨letter, digits⟩⟩
    · rfl
    · rfl
    · simp only [List.length_cons] at longer
      rw [readLow, readHex_of_lt (by omega), ite_self]
      rfl

theorem decodeUTF16_escaped (in_ : In p depth s bytes) :
    Escaped p depth (fun value result => result = value) (readUtf16 bytes) (decodeUTF16 p s) := by
  unfold decodeUTF16 readUtf16
  by_cases room : 4 ≤ bytes.length
  · rw [if_neg (not_not.mpr ((in_.canConsume_iff (by omega)).mpr room)), hexAt_of_drop in_.ahead room, readHex_of_le room]
    cases hexStringToInt (bytes.take 4) with
    | none => rfl
    | some high =>
      rcases in_.forward room with ⟨last, there⟩
      simp only [Option.map_some]
      by_cases surrogate : isSurrogate16 high = true
      · rw [if_pos surrogate, if_pos surrogate]
        by_cases lead : isSurrogateLead high = true
        · have low := decodeSurrogates_escaped lead there
          rw [if_pos lead]
          rcases decoded : decodeSurrogates p high (nextNChars 3 s) with ⟨_ | units, s'⟩ <;> rw [decoded] at low
          · rw [show readLow high (bytes.drop 4) = none from low]
            rfl
          · rcases low with ⟨front, last, read, taken, there⟩ | ⟨read, beyond⟩
            · rw [read]
              exact Or.inl ⟨_, last, rfl, taken, there⟩
            · rw [read]
              exact Or.inr ⟨rfl, beyond⟩
        · rw [decodeSurrogates, if_pos lead, if_neg lead]
          rfl
      · rw [if_neg surrogate, if_neg surrogate]
        by_cases valid : isValidCharacter high = true
        · rw [if_pos valid, if_pos valid]
          exact Or.inl ⟨_, last, rfl, rfl, there⟩
        · rw [if_neg valid, if_neg valid]
          rfl
  · rw [if_pos (by rw [in_.canConsume_iff (by omega)]; exact room), readHex_of_lt (Nat.lt_of_not_le room)]
    rfl

theorem consumeEscape_behind (string : StringBuilder) (in_ : In p depth s [c]) :
    (consumeEscape p string s).1 = none ∨ p.source.text.length ≤ (consumeEscape p string s).2.pos := by
  have next := in_.nextChar
  have outside := List.drop_eq_nil_iff.mp next.ahead
  have cannot : ∀ count, 0 < count → ¬ canConsume p count (nextChar s) = true := by
    intro count some_
    rw [next.canConsume_iff some_]
    exact Nat.not_le.mpr some_
  unfold consumeEscape hexEscape
  simp only [cannot 2 (by omega), cannot 5 (by omega)]
  split
  next => exact Or.inl rfl
  next =>
    split
    next => exact Or.inl rfl
    next =>
      cases simpleEscape (current p (nextChar s)) with
      | none => exact Or.inl rfl
      | some byte => exact Or.inr outside

theorem hexEscape_escaped {string : StringBuilder} (converted : string.string = some str)
    (in_ : In p depth s (c :: rest)) :
    Escaped p depth (fun value result => result.string = some (str ++ value)) ((readHex 2 rest).map (Read.map hexCharacter))
      (hexEscape p string s) := by
  have digits := in_.nextChar
  unfold hexEscape
  by_cases room : 2 ≤ rest.length
  · rw [if_neg (not_not.mpr ((in_.canConsume_iff (by omega)).mpr (by rw [List.length_cons]; omega))),
      readHex_of_le room]
    simp only [hexAt_of_drop digits.ahead room]
    cases hexStringToInt (rest.take 2) with
    | none => rfl
    | some value =>
      rcases digits.forward room with ⟨last, there⟩
      have builder := string_decodeUTF8 p.source value converted
      simp only [ite_decodeUTF8]
      exact Or.inl ⟨_, last, rfl, builder, there⟩
  · rw [readHex_of_lt (Nat.lt_of_not_le room)]
    by_cases one : 2 ≤ (c :: rest).length
    · -- The second digit is behind the text.
      have beyond : p.source.text.length ≤ (nextChar (nextChar s)).pos := by
        have length := digits.length
        rw [nextChar_pos]
        omega
      rw [if_neg (not_not.mpr ((in_.canConsume_iff (by omega)).mpr one))]
      simp only
      cases hexAt p (nextChar s).pos 2 with
      | none => rfl
      | some value =>
        simp only [ite_decodeUTF8]
        exact Or.inr ⟨rfl, beyond⟩
    · rw [if_pos (by rw [in_.canConsume_iff (by omega)]; exact one)]
      rfl

theorem consumeEscape_escaped {string : StringBuilder} (converted : string.string = some str)
    (in_ : In p depth s (c :: bytes)) :
    Escaped p depth (fun value result => result.string = some (str ++ value)) (readEscape bytes)
      (consumeEscape p string s) := by
  cases bytes with
  | nil =>
    have behind := consumeEscape_behind string in_
    rcases escaped : consumeEscape p string s with ⟨_ | result, s'⟩
    · rfl
    · rw [escaped] at behind
      exact Or.inr ⟨rfl, behind.resolve_left (Option.some_ne_none result)⟩
  | cons letter rest =>
    have next := in_.nextChar
    simp only [consumeEscape, readEscape, next.current]
    by_cases hex : letter = ascii 'x'
    · rw [if_pos hex, if_pos hex]
      exact hexEscape_escaped converted next
    · rw [if_neg hex, if_neg hex]
      by_cases unit : letter = ascii 'u'
      · rw [if_pos unit, if_pos unit]
        by_cases room : 5 ≤ (letter :: rest).length
        · rw [if_neg (not_not.mpr ((next.canConsume_iff (by omega)).mpr room))]
          have units := decodeUTF16_escaped next.nextChar
          rcases decoded : decodeUTF16 p (nextChar (nextChar s)) with ⟨_ | result, s'⟩ <;> rw [decoded] at units
          · exact units
          · rcases units with ⟨front, last, read, rfl, there⟩ | beyond
            · left
              exact ⟨front, last, read, string_appendString converted _, there⟩
            · exact Or.inr beyond
        · rw [if_pos (by rw [next.canConsume_iff (by omega)]; exact room)]
          rw [List.length_cons] at room
          rw [readUtf16, readHex_of_lt (by omega)]
          rfl
      · rw [if_neg unit, if_neg unit]
        cases simpleEscape letter with
        | none => rfl
        | some byte => exact Or.inl ⟨_, letter, rfl, string_append converted byte, next⟩

/-! ### The loop -/

variable (p) in
/-- Between the characters of a string: these bytes are still to be read. -/
structure InString (depth : Nat) (s : State) (bytes : List Byte) : Prop where
  ahead : p.source.text.drop s.index = bytes
  order : s.pos ≤ s.index
  within : s.pos < p.source.text.length → s.index ≤ p.source.text.length
  depth : s.stackDepth = depth

theorem In.inString (in_ : In p depth s (c :: rest)) : InString p depth s rest where
  ahead := by
    rw [in_.index]
    exact Buffer.drop_succ in_.ahead
  order := by
    have index := in_.index
    omega
  within inside := by
    have index := in_.index
    omega
  depth := in_.depth

variable (p) in
/-- The builder holds these bytes, and its piece of the text, if it has no copy yet, ends before `index`. -/
def Built (builder : StringBuilder) (decoded : List Byte) (index : Nat) : Prop :=
  builder.asString p.source = decoded ∧ (builder.string = none → builder.pos + builder.length = index)

theorem built_of_string (converted : builder.string = some str) (index : Nat) : Built p builder str index := by
  constructor
  · simp only [StringBuilder.asString, StringBuilder.convert, converted, Option.getD_some]
  · intro piece
    exact absurd (converted.symm.trans piece) (Option.some_ne_none str)

theorem slice_succ (s : Nat → Byte) (i count : Nat) : slice s i (count + 1) = slice s i count ++ [s (i + count)] := by
  induction count generalizing i with
  | zero => rfl
  | succ count inductive_hypothesis =>
    rw [slice, inductive_hypothesis, slice, List.cons_append, Nat.add_assoc, Nat.add_comm 1]

variable {decoded : List Byte}

/-- A character is added to a copy, or is in the text where the piece goes on. -/
theorem built_decodeUTF8 {index next : Nat} {point : Int} (built : Built p builder decoded index)
    (single : point < kExtendedASCIIStart → p.source.read index = BitVec.ofInt 8 point ∧ next = index + 1) :
    Built p (decodeUTF8 p.source point builder) (decoded ++ hexCharacter point) next := by
  cases copy : builder.string with
  | some str =>
    have same : str = decoded := by
      rw [← built.1]
      simp only [StringBuilder.asString, StringBuilder.convert, copy, Option.getD_some]
    subst same
    exact built_of_string (string_decodeUTF8 p.source point copy) next
  | none =>
    unfold decodeUTF8 hexCharacter
    split
    next small =>
      have here := built.2 copy
      have decoded_ := built.1
      simp only [StringBuilder.asString, StringBuilder.convert, copy, Option.getD_some] at decoded_
      rcases single small with ⟨byte, rfl⟩
      unfold Built StringBuilder.asString StringBuilder.convert StringBuilder.append
      simp only [copy, Option.getD_some, slice_succ, here, decoded_, byte, true_and]
      intro
      omega
    next =>
      have converted := string_convert p.source builder
      rw [built.1] at converted
      exact built_of_string (string_appendString converted _) next

variable (p) in
/-- What came of a string: it ended where its reading ends. Where the text ends within it, the quote that ends it, if
any, is the byte behind the text. -/
def StringFollows (depth : Nat) (goesOn : Prop) (decoded : List Byte) : StringEnd → Option StringBuilder × State → Prop
  | .closed read, (some string, s) => string.asString p.source = decoded ++ read.value ∧ Behind p depth s read.rest
  | .closed _, (none, _) => False
  | .runsOut, (some _, s) =>
    (goesOn ∧ p.source.beyond 0 = ascii '"') ∧ s.index = s.pos ∧ s.pos = p.source.text.length ∧ s.stackDepth = depth
  | .runsOut, (none, _) => ¬ (goesOn ∧ p.source.beyond 0 = ascii '"')
  | .malformed, (result, _) => result = none

theorem StringFollows.prepend {goesOn : Prop} {front : Read (List Byte)} {end_ : StringEnd}
    {result : Option StringBuilder × State} (follows : StringFollows p depth goesOn (decoded ++ front.value) end_ result) :
    StringFollows p depth goesOn decoded (end_.prepend front) result := by
  rcases result with ⟨_ | string, s⟩
  · cases end_ <;> exact follows
  · cases end_ with
    | closed read =>
      refine ⟨?_, follows.2⟩
      rw [follows.1, List.append_assoc]
    | runsOut => exact follows
    | malformed => exact follows

theorem consumeStringFrom_beyond (fuel : Nat) (string : StringBuilder) (beyond : p.source.text.length ≤ s.pos) :
    (consumeStringFrom p fuel string s).1 = none := by
  cases fuel with
  | zero => rfl
  | succ fuel =>
    rw [consumeStringFrom, if_neg (by rw [canConsume_iff]; omega)]

theorem isValidCharacter_ascii {c : Nat} (small : c < 0x80) : isValidCharacter c = true := by
  simp only [isValidCharacter, Bool.or_eq_true, Bool.and_eq_true, decide_eq_true_eq]
  omega

theorem cbu8Next_end {bytes : Nat → Byte} {length : Nat} (multi : 0x80 ≤ (bytes length).toNat) :
    (cbu8Next bytes length length).1 = sentinel := by
  rcases @cbu8Next_neg bytes length length with nonneg | negative
  · have lead := lead_of_cbu8Next multi nonneg
    omega
  · exact negative

/-- The round that reads the byte behind the text. -/
theorem consumeStringFrom_end (fuel : Nat) (string : StringBuilder) (in_ : InString p depth s []) :
    StringFollows p depth (s.pos < p.source.text.length) decoded .runsOut (consumeStringFrom p (fuel + 1) string s) := by
  by_cases inside : s.pos < p.source.text.length
  · have index : s.index = p.source.text.length := Buffer.eq_length_of_drop in_.ahead (in_.within inside)
    have byte := p.source.read_end
    rw [consumeStringFrom, if_pos (canConsume_iff.mpr inside), index]
    by_cases multi : 0x80 ≤ (p.source.read p.source.text.length).toNat
    · have invalid := cbu8Next_end multi
      rcases decoded : cbu8Next p.source.read p.source.text.length p.source.text.length with ⟨c, next⟩
      rw [decoded] at invalid
      simp only at invalid
      subst invalid
      simp only [show sentinel < 0 by decide, true_or, if_true]
      intro closes
      rw [byte, closes.2] at multi
      exact absurd multi (by decide)
    · rw [cbu8Next_single (by omega)]
      have small : (p.source.read p.source.text.length).toNat < 0x80 := by omega
      simp only [isValidCharacter_ascii small, not_true_eq_false, or_false]
      rw [if_neg (by omega)]
      have cannot : canConsume p 1 { s with pos := p.source.text.length, index := p.source.text.length + 1 } = false := by
        rw [← Bool.not_eq_true, canConsume_iff]
        simp
      by_cases backslash : (p.source.read p.source.text.length).toNat = 0x5c
      · rw [if_pos (by omega), if_pos (by rw [cannot]; exact Bool.false_ne_true)]
        intro closes
        rw [byte, closes.2] at backslash
        exact absurd backslash (by decide)
      · rw [if_neg (by omega)]
        by_cases quote : (p.source.read p.source.text.length).toNat = 0x22
        · rw [if_pos (by omega)]
          refine ⟨⟨inside, ?_⟩, rfl, rfl, in_.depth⟩
          rw [← byte, ← BitVec.toNat_inj, quote]
          rfl
        · rw [if_neg (by omega)]
          have beyond : ∀ builder, (consumeStringFrom p fuel builder
              { s with pos := p.source.text.length, index := p.source.text.length + 1 }).1 = none :=
            fun builder => consumeStringFrom_beyond fuel builder (Nat.le_refl _)
          generalize (if ((p.source.read p.source.text.length).toNat : Int) < kExtendedASCIIStart then
            string.append (BitVec.ofInt 8 (p.source.read p.source.text.length).toNat)
            else decodeUTF8 p.source (p.source.read p.source.text.length).toNat string) = builder
          have beyond := beyond builder
          rcases result : consumeStringFrom p fuel builder
            { s with pos := p.source.text.length, index := p.source.text.length + 1 } with ⟨_ | string, s'⟩ <;>
            rw [result] at beyond
          · intro closes
            rw [byte, closes.2] at quote
            exact quote (by decide)
          · cases beyond
  · have beyond := consumeStringFrom_beyond (fuel + 1) string (Nat.le_of_not_lt inside)
    rcases result : consumeStringFrom p (fuel + 1) string s with ⟨_ | string, s'⟩ <;> rw [result] at beyond
    · exact fun closes => inside closes.1
    · cases beyond

end Libchrome.Base.Json
