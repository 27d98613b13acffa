import Libchrome.Base.Json.Reading

/-! The parser at its text: `GetNextToken` skips what the reading skips, wherever the text ends. -/

namespace Libchrome.Base.Json
open Library.Bytes Library.Cursor NumberConversions Utf8

variable {D : Type} (p : Parser D)

/-- The parser is at these bytes, nested so deep. -/
structure At (depth : Nat) (s : State) (bytes : List Byte) : Prop where
  index : s.index = s.pos
  ahead : p.source.text.drop s.pos = bytes
  depth : s.stackDepth = depth

/-- The parser is on the last byte before these, within its text. -/
structure Behind (depth : Nat) (s : State) (rest : List Byte) : Prop where
  index : s.index = s.pos
  inside : s.pos < p.source.text.length
  ahead : p.source.text.drop (s.pos + 1) = rest
  depth : s.stackDepth = depth

@[simp] theorem nextNChars_pos (n : Nat) (s : State) : (nextNChars n s).pos = s.pos + n := rfl

@[simp] theorem nextNChars_index (n : Nat) (s : State) : (nextNChars n s).index = s.index + n := rfl

@[simp] theorem nextChar_pos (s : State) : (nextChar s).pos = s.pos + 1 := rfl

@[simp] theorem nextChar_index (s : State) : (nextChar s).index = s.index + 1 := rfl

variable {p} {depth : Nat} {s : State} {c : Byte} {bytes rest : List Byte}

theorem canConsume_iff {length : Nat} : canConsume p length s = true ↔ s.pos + length ≤ p.source.text.length := by
  rw [canConsume, decide_eq_true_eq]

namespace At

theorem inside (at_ : At p depth s (c :: rest)) : s.pos < p.source.text.length := Buffer.lt_of_drop at_.ahead

theorem current (at_ : At p depth s (c :: rest)) : current p s = c := Buffer.read_of_drop at_.ahead

theorem canConsume_one (at_ : At p depth s (c :: rest)) : canConsume p 1 s = true := canConsume_iff.mpr at_.inside

theorem not_canConsume (at_ : At p depth s []) : canConsume p 1 s = false := by
  have outside := List.drop_eq_nil_iff.mp at_.ahead
  rw [← Bool.not_eq_true, canConsume_iff]
  omega

theorem length (at_ : At p depth s bytes) : bytes.length = p.source.text.length - s.pos := Buffer.length_of_drop at_.ahead

theorem nextNChars {front : List Byte} (at_ : At p depth s (front ++ rest)) :
    At p depth (nextNChars front.length s) rest where
  index := by rw [nextNChars_index, nextNChars_pos, at_.index]
  ahead := Buffer.drop_add_of_drop at_.ahead
  depth := at_.depth

theorem nextChar (at_ : At p depth s (c :: rest)) : At p depth (nextChar s) rest :=
  At.nextNChars (show At p depth s ([c] ++ rest) from at_)

theorem behind (at_ : At p depth s (c :: rest)) : Behind p depth s rest where
  index := at_.index
  inside := at_.inside
  ahead := Buffer.drop_succ at_.ahead
  depth := at_.depth

/-- The bytes are all that the parser can be at. -/
theorem self (at_ : At p depth s bytes) : At p depth s (p.source.text.drop s.pos) := ⟨at_.index, rfl, at_.depth⟩

end At

theorem Behind.nextChar (behind : Behind p depth s rest) : At p depth (nextChar s) rest where
  index := by rw [nextChar_index, nextChar_pos, behind.index]
  ahead := behind.ahead
  depth := behind.depth

/-! ### Comments -/

variable (p) in
/-- From within a comment the parser got to a place where skipping goes on, or where it ends, before these bytes. -/
structure Resumes (depth : Nat) (start : Nat) (result : Bool × State) (rest : List Byte) : Prop where
  index : result.2.index = result.2.pos
  depth : result.2.stackDepth = depth
  forward : start ≤ result.2.pos
  rest : rest = if result.1 then (skip (p.source.text.drop result.2.pos)).rest else p.source.text.drop result.2.pos

theorem Resumes.mono {start before : Nat} {result : Bool × State} (resumes : Resumes p depth start result rest)
    (earlier : before ≤ start) : Resumes p depth before result rest :=
  { resumes with forward := Nat.le_trans earlier resumes.forward }

/-- Outside of the text, going on and ending are the same. -/
theorem resumes_outside (index : s.index = s.pos) (outside : p.source.text.length ≤ s.pos) (more : Bool) :
    Resumes p s.stackDepth s.pos (more, s) [] := by
  refine ⟨index, rfl, Nat.le_refl _, ?_⟩
  simp only [List.drop_eq_nil_of_le outside, skip, skipFrom, ite_self]

theorem skipFrom_newline (newline : isNewline c = true) (rest : List Byte) :
    skip (c :: rest) = skipFrom .between rest := by
  rw [skip, skipFrom, if_pos (Or.inl newline)]

theorem lineComment_resumes (fuel : Nat) (index : s.index = s.pos) (ahead : p.source.text.drop (s.pos + 1) = bytes)
    (inside : s.pos ≤ p.source.text.length) (enough : p.source.text.length - s.pos ≤ fuel) :
    Resumes p s.stackDepth s.pos (lineComment p fuel s) (skipFrom .line bytes).rest := by
  induction fuel generalizing s bytes with
  | zero =>
    have outside : p.source.text.length ≤ s.pos := by omega
    rw [List.drop_eq_nil_of_le (by omega)] at ahead
    rw [← ahead]
    exact resumes_outside index outside false
  | succ fuel inductive_hypothesis =>
    rw [lineComment]
    by_cases more : canConsume p 1 s = true
    · simp only [more, if_true]
      rw [canConsume_iff] at more
      have next : (nextChar s).index = (nextChar s).pos := by rw [nextChar_index, nextChar_pos, index]
      cases bytes with
      | nil =>
        have outside := List.drop_eq_nil_iff.mp ahead
        have none_ : p.source.text.drop ((nextChar s).pos + 1) = [] := List.drop_eq_nil_of_le (by simp only [nextChar_pos]; omega)
        split
        next => exact (resumes_outside next outside true).mono (Nat.le_succ _)
        next =>
          exact (inductive_hypothesis next none_ (by simp only [nextChar_pos]; omega) (by simp only [nextChar_pos]; omega)).mono
            (Nat.le_succ _)
      | cons c rest =>
        have inside' := Buffer.lt_of_drop ahead
        have char : current p (nextChar s) = c := Buffer.read_of_drop ahead
        rw [char, skipFrom]
        by_cases newline : isNewline c = true
        · rw [if_pos newline, if_pos newline]
          refine ⟨next, rfl, Nat.le_succ _, ?_⟩
          simp only [if_true, nextChar_pos, ahead, skipFrom_newline newline]
        · rw [if_neg newline, if_neg newline]
          exact (inductive_hypothesis next (Buffer.drop_succ ahead) (Nat.le_of_lt inside')
            (by simp only [nextChar_pos]; omega)).mono (Nat.le_succ _)
    · rw [if_neg more]
      rw [canConsume_iff] at more
      have outside : p.source.text.length ≤ s.pos := by omega
      rw [List.drop_eq_nil_of_le (by omega)] at ahead
      rw [← ahead]
      exact resumes_outside index outside false

theorem blockComment_resumes (fuel : Nat) (previousChar : Byte) (index : s.index = s.pos)
    (ahead : p.source.text.drop (s.pos + 1) = bytes) (enough : p.source.text.length - s.pos ≤ fuel) :
    Resumes p s.stackDepth s.pos (blockComment p fuel previousChar s)
      (skipFrom (.block (previousChar = ascii '*')) bytes).rest := by
  induction fuel generalizing s bytes previousChar with
  | zero =>
    have outside : p.source.text.length ≤ s.pos := by omega
    rw [List.drop_eq_nil_of_le (by omega)] at ahead
    rw [← ahead]
    exact resumes_outside index outside false
  | succ fuel inductive_hypothesis =>
    rw [blockComment]
    by_cases more : canConsume p 1 s = true
    · simp only [more, if_true]
      rw [canConsume_iff] at more
      have next : (nextChar s).index = (nextChar s).pos := by rw [nextChar_index, nextChar_pos, index]
      cases bytes with
      | nil =>
        have outside := List.drop_eq_nil_iff.mp ahead
        have none_ : p.source.text.drop ((nextChar s).pos + 1) = [] := List.drop_eq_nil_of_le (by simp only [nextChar_pos]; omega)
        split
        next =>
          have behind : (nextChar (nextChar s)).index = (nextChar (nextChar s)).pos := by
            rw [nextChar_index, nextChar_pos, next]
          exact (resumes_outside behind (by simp only [nextChar_pos]; omega) true).mono
            (by simp only [nextChar_pos]; omega)
        next =>
          exact (inductive_hypothesis _ next none_ (by simp only [nextChar_pos]; omega)).mono (Nat.le_succ _)
      | cons c rest =>
        have char : current p (nextChar s) = c := Buffer.read_of_drop ahead
        rw [char, skipFrom]
        simp only [decide_eq_true_eq]
        by_cases end_ : previousChar = ascii '*' ∧ c = ascii '/'
        · rw [if_pos end_, if_pos end_]
          refine ⟨?_, rfl, ?_, ?_⟩
          · simp only [nextChar_index, nextChar_pos, index]
          · simp only [nextChar_pos]
            omega
          · simp only [if_true, nextChar_pos, Buffer.drop_succ ahead, skip]
        · rw [if_neg end_, if_neg end_]
          exact (inductive_hypothesis c next (Buffer.drop_succ ahead) (by simp only [nextChar_pos]; omega)).mono
            (Nat.le_succ _)
    · rw [if_neg more]
      rw [canConsume_iff] at more
      have outside : p.source.text.length ≤ s.pos := by omega
      rw [List.drop_eq_nil_of_le (by omega)] at ahead
      rw [← ahead]
      exact resumes_outside index outside false

theorem eatComment_resumes (at_ : At p depth s (ascii '/' :: rest)) :
    Resumes p depth (s.pos + 1) (eatComment p s) (skipFrom .slash rest).rest := by
  have next := at_.nextChar
  have inside := at_.inside
  unfold eatComment
  rw [if_neg (by rw [at_.current, at_.canConsume_one]; simp)]
  rw [← at_.depth]
  cases rest with
  | nil =>
    have outside := List.drop_eq_nil_iff.mp next.ahead
    have none_ : p.source.text.length - (nextChar s).pos = 0 := Nat.sub_eq_zero_of_le outside
    simp only [none_, lineComment, blockComment, ite_self]
    exact resumes_outside next.index outside false
  | cons c rest =>
    have char := next.current
    simp only [char, skipFrom]
    have behind := Buffer.drop_succ next.ahead
    by_cases line : c = ascii '/'
    · rw [if_pos line, if_pos line]
      exact lineComment_resumes _ next.index behind (Nat.le_of_lt next.inside) (Nat.le_refl _)
    · rw [if_neg line, if_neg line]
      by_cases block : c = ascii '*'
      · rw [if_pos block, if_pos block]
        exact blockComment_resumes _ 0 next.index behind (Nat.le_refl _)
      · rw [if_neg block, if_neg block]
        refine ⟨next.index, rfl, Nat.le_refl _, ?_⟩
        rw [if_neg Bool.false_ne_true]
        exact next.ahead.symm

/-! ### Tokens -/

theorem eatFrom_at (fuel : Nat) (at_ : At p depth s bytes) (enough : p.source.text.length - s.pos ≤ fuel) :
    At p depth (eatFrom p fuel s) (skip bytes).rest := by
  induction fuel generalizing s bytes with
  | zero =>
    have none_ : bytes = [] := by
      rw [← at_.ahead]
      exact List.drop_eq_nil_of_le (by omega)
    subst none_
    exact at_
  | succ fuel inductive_hypothesis =>
    cases bytes with
    | nil =>
      have outside := List.drop_eq_nil_iff.mp at_.ahead
      rw [eatFrom, if_neg (Nat.not_lt.mpr outside)]
      exact at_
    | cons c rest =>
      have inside := at_.inside
      have fewer : p.source.text.length - (nextChar s).pos ≤ fuel := by
        simp only [nextChar_pos]
        omega
      simp only [eatFrom, inside, if_true, at_.current, skip, skipFrom]
      by_cases newline : isNewline c = true
      · rw [if_pos newline, if_pos (Or.inl newline)]
        have counted : At p depth (countLine p s) (c :: rest) := ⟨at_.index, at_.ahead, at_.depth⟩
        exact inductive_hypothesis counted.nextChar fewer
      · rw [if_neg newline]
        by_cases blank : c = ascii ' ' ∨ c = ascii '\t'
        · rw [if_pos blank, if_pos (Or.inr blank)]
          exact inductive_hypothesis at_.nextChar fewer
        · have neither : ¬ (isNewline c = true ∨ c = ascii ' ' ∨ c = ascii '\t') := not_or.mpr ⟨newline, blank⟩
          rw [if_neg blank, if_neg neither]
          by_cases slash : c = ascii '/'
          · rw [if_pos slash, if_pos slash]
            subst slash
            have resumes := eatComment_resumes at_
            rcases eaten : eatComment p s with ⟨more, s'⟩
            rw [eaten] at resumes
            have there : At p depth s' (p.source.text.drop s'.pos) := ⟨resumes.index, rfl, resumes.depth⟩
            have forward : s.pos + 1 ≤ s'.pos := resumes.forward
            rw [resumes.rest]
            cases more with
            | true => exact inductive_hypothesis there (by omega)
            | false => exact there
          · rw [if_neg slash, if_neg slash]
            exact at_

theorem getNextToken_at (at_ : At p depth s bytes) :
    (getNextToken p s).1 = tokenAt (skip bytes).rest ∧ At p depth (getNextToken p s).2 (skip bytes).rest := by
  have there := eatFrom_at _ at_ (Nat.le_refl _)
  unfold getNextToken eatWhitespaceAndComments
  cases ahead : (skip bytes).rest with
  | nil =>
    rw [ahead] at there
    simp only [there.not_canConsume]
    exact ⟨rfl, there⟩
  | cons c rest =>
    rw [ahead] at there
    simp only [there.canConsume_one, if_true, there.current]
    exact ⟨rfl, there⟩

end Libchrome.Base.Json
