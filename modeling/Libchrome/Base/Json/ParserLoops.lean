import Libchrome.Base.Json.ParserNumbers
import Libchrome.Base.Json.ParserStringLoop

/-!
# The loops of the parser

Within a string the parser only moves forward until it reports an error. No loop depends on how many rounds the model gives
it: each ends by itself before.
-/

namespace Libchrome.Base.Json
open Library.Bytes Library.Cursor NumberConversions Utf8

variable {D : Type} {p : Parser D} {depth levels : Nat} {s s' : State} {c : Byte} {bytes rest : List Byte} {α γ : Type}

/-! ### Moves -/

/-- The parser moved forward, and nothing else changed. -/
def Moved (s s' : State) : Prop := ∃ count, s' = nextNChars count s

theorem Moved.refl (s : State) : Moved s s := ⟨0, rfl⟩

theorem moved_nextNChars (count : Nat) (s : State) : Moved s (nextNChars count s) := ⟨count, rfl⟩

theorem moved_nextChar (s : State) : Moved s (nextChar s) := ⟨1, rfl⟩

theorem Moved.trans {s'' : State} (first : Moved s s') (second : Moved s' s'') : Moved s s'' := by
  obtain ⟨count, rfl⟩ := first
  obtain ⟨further, rfl⟩ := second
  exact ⟨count + further, nextNChars_add further count s⟩

/-- The parser moved forward and then reported an error. -/
def Failed (s s' : State) : Prop :=
  ∃ code columnAdjust there, code ≠ .noError ∧ columnAdjust ∈ [-1, 0, 1] ∧ Moved s there ∧ s' = reportError code columnAdjust there

theorem Moved.reported (moved : Moved s s') {code : JsonParseError} {columnAdjust : Int} (isError : code ≠ .noError)
    (near : columnAdjust ∈ [-1, 0, 1]) : Failed s (reportError code columnAdjust s') :=
  ⟨code, columnAdjust, s', isError, near, moved, rfl⟩

theorem Failed.after {s'' : State} (failed : Failed s' s'') (moved : Moved s s') : Failed s s'' := by
  obtain ⟨code, columnAdjust, there, isError, near, further, reported⟩ := failed
  exact ⟨code, columnAdjust, there, isError, near, moved.trans further, reported⟩

theorem decodeSurrogates_moved (high : Int) (s : State) : Moved s (decodeSurrogates p high s).2 := by
  have one := moved_nextChar s
  have two := one.trans (moved_nextChar _)
  have three := two.trans (moved_nextChar _)
  unfold decodeSurrogates
  split
  next => exact Moved.refl s
  next =>
    split
    next => exact Moved.refl s
    next =>
      dsimp only
      split
      next => exact one
      next =>
        split
        next => exact two
        next =>
          split
          next => exact three
          next =>
            split
            next => exact three.trans (moved_nextNChars 3 _)
            next => exact three.trans (moved_nextNChars 3 _)

theorem decodeUTF16_moved (s : State) : Moved s (decodeUTF16 p s).2 := by
  unfold decodeUTF16
  split
  next => exact Moved.refl s
  next =>
    split
    next => exact Moved.refl s
    next =>
      dsimp only
      split
      next => exact (moved_nextNChars 3 s).trans (decodeSurrogates_moved _ _)
      next =>
        split
        next => exact moved_nextNChars 3 s
        next => exact moved_nextNChars 3 s

/-- An escape is passed, or an error is reported within it. -/
def MovedOrFailed {β : Type} (s : State) : Option β × State → Prop
  | (some _, s') => Moved s s'
  | (none, s') => Failed s s'

theorem hexEscape_moved (string : StringBuilder) (s : State) : MovedOrFailed s (hexEscape p string s) := by
  unfold hexEscape
  split
  next => exact (Moved.refl s).reported (by decide) (by decide)
  next =>
    dsimp only
    split
    next => exact (moved_nextChar s).reported (by decide) (by decide)
    next => exact (moved_nextChar s).trans (moved_nextChar _)

theorem consumeEscape_moved (string : StringBuilder) (s : State) : MovedOrFailed s (consumeEscape p string s) := by
  have one := moved_nextChar s
  unfold consumeEscape
  dsimp only
  split
  next =>
    have hex := hexEscape_moved (p := p) string (nextChar s)
    rcases escaped : hexEscape p string (nextChar s) with ⟨_ | result, s'⟩ <;> rw [escaped] at hex
    · exact hex.after one
    · exact one.trans hex
  next =>
    split
    next =>
      split
      next => exact one.reported (by decide) (by decide)
      next =>
        have units := (one.trans (moved_nextChar _)).trans (decodeUTF16_moved (p := p) (nextChar (nextChar s)))
        rcases decoded : decodeUTF16 p (nextChar (nextChar s)) with ⟨_ | result, s'⟩ <;> rw [decoded] at units
        · exact units.reported (by decide) (by decide)
        · exact units
    next =>
      split
      next => exact one
      next => exact one.reported (by decide) (by decide)

theorem lineComment_moved (fuel : Nat) (s : State) : Moved s (lineComment p fuel s).2 := by
  induction fuel generalizing s with
  | zero => exact Moved.refl s
  | succ fuel ih =>
    rw [lineComment]
    split
    next =>
      dsimp only
      split
      next => exact moved_nextChar s
      next => exact (moved_nextChar s).trans (ih (nextChar s))
    next => exact Moved.refl s

theorem blockComment_moved (fuel : Nat) (previousChar : Byte) (s : State) : Moved s (blockComment p fuel previousChar s).2 := by
  induction fuel generalizing s previousChar with
  | zero => exact Moved.refl s
  | succ fuel ih =>
    rw [blockComment]
    split
    next =>
      dsimp only
      split
      next => exact (moved_nextChar s).trans (moved_nextChar _)
      next => exact (moved_nextChar s).trans (ih _ (nextChar s))
    next => exact Moved.refl s

theorem eatComment_moved (s : State) :
    ∃ count, (eatComment p s).2 = nextNChars count s ∧ ((eatComment p s).1 = true → 0 < count) := by
  have one : ∀ {there}, Moved (nextChar s) there → ∃ count, there = nextNChars count s ∧ 0 < count := by
    rintro there ⟨count, rfl⟩
    exact ⟨count + 1, nextNChars_nextChar count s, Nat.succ_pos count⟩
  unfold eatComment
  split
  next => exact ⟨0, rfl, fun impossible => Bool.noConfusion impossible⟩
  next =>
    dsimp only
    split
    next =>
      obtain ⟨count, there, positive⟩ := one (lineComment_moved (p := p) (p.source.text.length - (nextChar s).pos) (nextChar s))
      exact ⟨count, there, fun _ => positive⟩
    next =>
      split
      next =>
        obtain ⟨count, there, positive⟩ := one (blockComment_moved (p := p) (p.source.text.length - (nextChar s).pos) 0 (nextChar s))
        exact ⟨count, there, fun _ => positive⟩
      next => exact ⟨1, rfl, fun impossible => Bool.noConfusion impossible⟩

/-! ### Loops end by themselves -/

section Loops

variable {fuel other : Nat}

theorem not_canConsume_of_le (outside : p.source.text.length ≤ s.pos) : ¬ canConsume p 1 s = true := by
  rw [canConsume_iff]
  omega

theorem lineComment_fuel (enough : p.source.text.length - s.pos ≤ fuel) (otherEnough : p.source.text.length - s.pos ≤ other) :
    lineComment p fuel s = lineComment p other s := by
  induction fuel generalizing other s with
  | zero =>
    cases other with
    | zero => rfl
    | succ other =>
      rw [lineComment, lineComment, if_neg (not_canConsume_of_le (by omega))]
  | succ fuel ih =>
    cases other with
    | zero => rw [lineComment, lineComment, if_neg (not_canConsume_of_le (by omega))]
    | succ other =>
      rw [lineComment, lineComment]
      by_cases more : canConsume p 1 s = true
      · have onwards : lineComment p fuel (nextChar s) = lineComment p other (nextChar s) :=
          ih (by rw [nextChar_pos]; omega) (by rw [nextChar_pos]; omega)
        rw [if_pos more, if_pos more]
        dsimp only
        rw [onwards]
      · rw [if_neg more, if_neg more]

theorem blockComment_fuel (previousChar : Byte) (enough : p.source.text.length - s.pos ≤ fuel)
    (otherEnough : p.source.text.length - s.pos ≤ other) :
    blockComment p fuel previousChar s = blockComment p other previousChar s := by
  induction fuel generalizing other s previousChar with
  | zero =>
    cases other with
    | zero => rfl
    | succ other =>
      rw [blockComment, blockComment, if_neg (not_canConsume_of_le (by omega))]
  | succ fuel ih =>
    cases other with
    | zero => rw [blockComment, blockComment, if_neg (not_canConsume_of_le (by omega))]
    | succ other =>
      rw [blockComment, blockComment]
      by_cases more : canConsume p 1 s = true
      · have onwards : ∀ previousChar, blockComment p fuel previousChar (nextChar s) =
            blockComment p other previousChar (nextChar s) :=
          fun previousChar => ih previousChar (by rw [nextChar_pos]; omega) (by rw [nextChar_pos]; omega)
        rw [if_pos more, if_pos more]
        dsimp only
        rw [onwards]
      · rw [if_neg more, if_neg more]

theorem readDigits_fuel (c : Byte) (len : Nat) (enough : p.source.text.length - s.pos ≤ fuel)
    (otherEnough : p.source.text.length - s.pos ≤ other) : readDigits p fuel c len s = readDigits p other c len s := by
  induction fuel generalizing other s c len with
  | zero =>
    cases other with
    | zero => rfl
    | succ other =>
      rw [readDigits, readDigits, if_neg (fun both => not_canConsume_of_le (by omega) both.1)]
  | succ fuel ih =>
    cases other with
    | zero => rw [readDigits, readDigits, if_neg (fun both => not_canConsume_of_le (by omega) both.1)]
    | succ other =>
      rw [readDigits, readDigits]
      by_cases more : canConsume p 1 s = true ∧ isAsciiDigit c = true
      · have onwards : ∀ c len, readDigits p fuel c len (nextChar s) = readDigits p other c len (nextChar s) :=
          fun c len => ih c len (by rw [nextChar_pos]; omega) (by rw [nextChar_pos]; omega)
        rw [if_pos more, if_pos more]
        dsimp only
        rw [onwards]
      · rw [if_neg more, if_neg more]

theorem eatComment_forward (eaten : eatComment p s = (true, s')) : s.pos < s'.pos := by
  have moved := eatComment_moved (p := p) s
  rw [eaten] at moved
  obtain ⟨count, there, positive⟩ := moved
  dsimp only at there positive
  rw [there, nextNChars_pos]
  exact Nat.lt_add_of_pos_right (positive rfl)

theorem eatFrom_fuel (enough : p.source.text.length - s.pos ≤ fuel) (otherEnough : p.source.text.length - s.pos ≤ other) :
    eatFrom p fuel s = eatFrom p other s := by
  induction fuel generalizing other s with
  | zero =>
    cases other with
    | zero => rfl
    | succ other =>
      rw [eatFrom, eatFrom, if_neg (by omega)]
  | succ fuel ih =>
    cases other with
    | zero => rw [eatFrom, eatFrom, if_neg (by omega)]
    | succ other =>
      rw [eatFrom, eatFrom]
      by_cases inside : s.pos < p.source.text.length
      · have onwards : ∀ {s'}, s.pos < s'.pos → eatFrom p fuel s' = eatFrom p other s' :=
          fun forward => ih (by omega) (by omega)
        rw [if_pos inside, if_pos inside]
        dsimp only
        rw [onwards (show s.pos < (nextChar (countLine p s)).pos from Nat.lt_succ_self _),
          onwards (show s.pos < (nextChar s).pos from Nat.lt_succ_self _)]
        rcases eaten : eatComment p s with ⟨_ | _, s'⟩
        · rfl
        · dsimp only
          rw [onwards (eatComment_forward eaten)]
      · rw [if_neg inside, if_neg inside]

theorem consumeStringFrom_round (string : StringBuilder)
    (onwards : ∀ string s', s.index ≤ s'.pos → s'.pos < s'.index →
      consumeStringFrom p fuel string s' = consumeStringFrom p other string s') :
    consumeStringFrom p (fuel + 1) string s = consumeStringFrom p (other + 1) string s := by
  have forward := lt_cbu8Next p.source.read s.index p.source.text.length
  rw [consumeStringFrom, consumeStringFrom]
  rcases decoded : cbu8Next p.source.read s.index p.source.text.length with ⟨c, next⟩
  rw [decoded] at forward
  dsimp only at forward ⊢
  have moved := consumeEscape_moved (p := p) (string.convert p.source) { s with pos := s.index, index := next }
  rw [onwards _ { s with pos := s.index, index := next } (Nat.le_refl _) forward]
  rcases escaped : consumeEscape p (string.convert p.source) { s with pos := s.index, index := next } with ⟨_ | string, s'⟩
  · rfl
  · rw [escaped] at moved
    obtain ⟨count, rfl⟩ := moved
    dsimp only
    rw [onwards string _ (Nat.le_add_right s.index count) (Nat.add_lt_add_right forward count)]

theorem consumeStringFrom_outside (string : StringBuilder) (outside : p.source.text.length ≤ s.pos) :
    consumeStringFrom p fuel string s = consumeStringFrom p other string s := by
  have ends : ∀ rounds, consumeStringFrom p rounds string s = (none, reportError .syntaxError 0 s) := by
    intro rounds
    cases rounds with
    | zero => rfl
    | succ rounds => rw [consumeStringFrom, if_neg (not_canConsume_of_le outside)]
  rw [ends, ends]

theorem consumeStringFrom_fuel (string : StringBuilder) (order : s.pos < s.index) (enough : p.source.text.length - s.pos ≤ fuel)
    (otherEnough : p.source.text.length - s.pos ≤ other) :
    consumeStringFrom p fuel string s = consumeStringFrom p other string s := by
  induction fuel generalizing other s string with
  | zero => exact consumeStringFrom_outside string (by omega)
  | succ fuel ih =>
    cases other with
    | zero => exact consumeStringFrom_outside string (by omega)
    | succ other => exact consumeStringFrom_round string fun string s' behind order => ih string order (by omega) (by omega)

variable (p) in
/-- However many rounds above these a loop is given, it ends as it does. -/
structure LoopsEnd : Prop where
  lineComment : ∀ s fuel, p.source.text.length - s.pos ≤ fuel →
    lineComment p fuel s = lineComment p (p.source.text.length - s.pos) s
  blockComment : ∀ s previousChar fuel, p.source.text.length - s.pos ≤ fuel →
    blockComment p fuel previousChar s = blockComment p (p.source.text.length - s.pos) previousChar s
  eatFrom : ∀ s fuel, p.source.text.length - s.pos ≤ fuel → eatFrom p fuel s = eatFrom p (p.source.text.length - s.pos) s
  readDigits : ∀ s c len fuel, p.source.text.length - s.pos ≤ fuel →
    readDigits p fuel c len s = readDigits p (p.source.text.length - s.pos) c len s
  consumeStringFrom : ∀ s string fuel, s.index = s.pos → p.source.text.length + 1 - s.pos ≤ fuel →
    consumeStringFrom p fuel string s = consumeStringFrom p (p.source.text.length + 1 - s.pos) string s

theorem loopsEnd (p : Parser D) : LoopsEnd p where
  lineComment _ _ enough := lineComment_fuel enough (Nat.le_refl _)
  blockComment _ previousChar _ enough := blockComment_fuel previousChar enough (Nat.le_refl _)
  eatFrom _ _ enough := eatFrom_fuel enough (Nat.le_refl _)
  readDigits _ c len _ enough := readDigits_fuel c len enough (Nat.le_refl _)
  consumeStringFrom s string fuel index enough := by
    by_cases inside : s.pos ≤ p.source.text.length
    · obtain ⟨fuel, rfl⟩ : ∃ rounds, fuel = rounds + 1 := ⟨fuel - 1, by omega⟩
      rw [Nat.succ_sub inside]
      exact consumeStringFrom_round string fun string s' behind order =>
        consumeStringFrom_fuel string order (by omega) (by omega)
    · exact consumeStringFrom_outside string (by omega)

end Loops

end Libchrome.Base.Json
