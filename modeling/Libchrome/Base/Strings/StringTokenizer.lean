import Mathlib.Data.BitVec
import Mathlib.Data.List.Basic

/-! The tokens of a string (`string_tokenizer.h`). -/

namespace Libchrome.Base.Strings

/-- `StringTokenizerT`, with the text between its iterators. -/
structure StringTokenizer (α : Type) where
  string : List α
  delims : List α
  quotes : List α
  options : BitVec 32

def returnDelims : BitVec 32 := 1 <<< 0

/-- The members that `GetNext` writes. -/
structure TokenState where
  tokenBegin : Nat
  tokenEnd : Nat
  tokenIsDelim : Bool

/-- The members after `Init`. -/
def TokenState.init : TokenState := ⟨0, 0, false⟩

structure AdvanceState (α : Type) where
  inQuote : Bool
  inEscape : Bool
  quoteChar : α

namespace StringTokenizer
variable {α : Type} [DecidableEq α] [Zero α] (self : StringTokenizer α) (backslash : α)

def token (state : TokenState) : List α := (self.string.drop state.tokenBegin).take (state.tokenEnd - state.tokenBegin)

def isDelim (c : α) : Bool := self.delims.contains c

def isQuote (c : α) : Bool := self.quotes.contains c

/-- `AdvanceOne`: whether a delimiter was not hit, and the state behind it. -/
def advanceOne (state : AdvanceState α) (c : α) : Bool × AdvanceState α :=
  if state.inQuote then
    if state.inEscape then (true, { state with inEscape := false })
    else if c = backslash then (true, { state with inEscape := true })
    else if c = state.quoteChar then (true, { state with inQuote := false })
    else (true, state)
  else if self.isDelim c then (false, state)
  else (true, { state with inQuote := self.isQuote c, quoteChar := c })

/-- The second loop of `QuickGetNext`; none when it does not end within `fuel` rounds, or reads behind the end. -/
def quickToken : Nat → TokenState → Option (Bool × TokenState)
  | 0, _ => none
  | fuel + 1, token =>
    if token.tokenEnd = self.string.length then some (true, token)
    else self.string[token.tokenEnd]?.bind fun c =>
      if self.isDelim c then some (true, token)
      else quickToken fuel { token with tokenEnd := token.tokenEnd + 1 }

/-- `QuickGetNext` behind its first line. -/
def quickGetNextFrom : Nat → TokenState → Option (Bool × TokenState)
  | 0, _ => none
  | fuel + 1, token =>
    if token.tokenEnd = self.string.length then some (false, { token with tokenBegin := token.tokenEnd })
    else self.string[token.tokenEnd]?.bind fun c =>
      let token := { token with tokenBegin := token.tokenEnd, tokenEnd := token.tokenEnd + 1 }
      if self.isDelim c then quickGetNextFrom fuel token
      else self.quickToken (self.string.length + 1) token

def quickGetNext (token : TokenState) : Option (Bool × TokenState) :=
  self.quickGetNextFrom (self.string.length + 1) { token with tokenIsDelim := false }

/-- The second loop of `FullGetNext`. -/
def fullToken : Nat → TokenState → AdvanceState α → Option (Bool × TokenState)
  | 0, _, _ => none
  | fuel + 1, token, state =>
    if token.tokenEnd = self.string.length then some (true, token)
    else self.string[token.tokenEnd]?.bind fun c =>
      let advanced := self.advanceOne backslash state c
      if advanced.1 then fullToken fuel { token with tokenEnd := token.tokenEnd + 1 } advanced.2
      else some (true, token)

/-- `FullGetNext` behind its first lines. -/
def fullGetNextFrom : Nat → TokenState → AdvanceState α → Option (Bool × TokenState)
  | 0, _, _ => none
  | fuel + 1, token, state =>
    if token.tokenEnd = self.string.length then some (false, { token with tokenBegin := token.tokenEnd })
    else self.string[token.tokenEnd]?.bind fun c =>
      let token := { token with tokenBegin := token.tokenEnd, tokenEnd := token.tokenEnd + 1 }
      let advanced := self.advanceOne backslash state c
      if advanced.1 then self.fullToken backslash (self.string.length + 1) token advanced.2
      else if self.options &&& returnDelims ≠ 0 then some (true, { token with tokenIsDelim := true })
      else fullGetNextFrom fuel token advanced.2

def fullGetNext (token : TokenState) : Option (Bool × TokenState) :=
  self.fullGetNextFrom backslash (self.string.length + 1) { token with tokenIsDelim := false } ⟨false, false, 0⟩

def getNext (token : TokenState) : Option (Bool × TokenState) :=
  if self.quotes.isEmpty && self.options = 0 then self.quickGetNext token else self.fullGetNext backslash token

/-- The tokens that a `GetNext` returns, one call after the other; none when it does not end within `fuel` calls. -/
def tokensFrom (getNext : TokenState → Option (Bool × TokenState)) : Nat → TokenState → Option (List (List α))
  | 0, _ => none
  | fuel + 1, token =>
    (getNext token).bind fun next =>
      if next.1 then (tokensFrom getNext fuel next.2).map (self.token next.2 :: ·) else some []

/-- Repeated calls of a `GetNext` end with these tokens. -/
def Tokenizes (getNext : TokenState → Option (Bool × TokenState)) (tokens : List (List α)) : Prop :=
  ∃ fuel, self.tokensFrom getNext fuel TokenState.init = some tokens

end StringTokenizer

/-! ### Quoted sections and runs -/

/-- Where a character stands: outside of the quoted sections, or inside of one, maybe behind a backslash. -/
inductive Quoting (α : Type)
  | outside
  | inside (quote : α) (escaped : Bool)
  deriving DecidableEq

section Runs
variable {α : Type} [DecidableEq α] (delims quotes : List α) (backslash : α)

/-- Where the next character stands. -/
def Quoting.next : Quoting α → α → Quoting α
  | .outside, c => if quotes.contains c then .inside c false else .outside
  | .inside quote true, _ => .inside quote false
  | .inside quote false, c =>
    if c = backslash then .inside quote true else if c = quote then .outside else .inside quote false

/-- The characters of a text, marked where they are delimiters outside of the quoted sections. -/
def marked : Quoting α → List α → List (α × Bool)
  | _, [] => []
  | place, c :: rest =>
    if place = .outside ∧ delims.contains c then (c, true) :: marked .outside rest
    else (c, false) :: marked (place.next quotes backslash c) rest

/-- The longest runs of characters that are not marked. -/
def runs {α : Type} (text : List (α × Bool)) : List (List α) :=
  ((text.splitOnP Prod.snd).filter fun run => !run.isEmpty).map (List.map Prod.fst)

theorem runs_separator {α : Type} (c : α) (rest : List (α × Bool)) : runs ((c, true) :: rest) = runs rest := by
  rw [runs, runs, List.splitOnP_cons_eq_if_modifyHead, if_pos rfl]
  rfl

/-- The first run, if the text begins with it. -/
theorem runs_append {α : Type} {run rest : List (α × Bool)} (some_ : run ≠ []) (unmarked : ∀ d ∈ run, d.2 = false)
    (ends : rest = [] ∨ ∃ c back, rest = (c, true) :: back) : runs (run ++ rest) = run.map Prod.fst :: runs rest := by
  have kept : (!run.isEmpty) = true := by
    cases run with
    | nil => exact absurd rfl some_
    | cons d run => rfl
  rcases ends with rfl | ⟨c, back, rfl⟩
  · rw [List.append_nil, runs, List.splitOnP_eq_singleton unmarked, List.filter_singleton, kept]
    rfl
  · rw [runs_separator, runs, List.splitOnP_append_cons_of_forall_mem unmarked (c, true) rfl, List.filter_cons,
      if_pos kept, List.map_cons, runs]

end Runs

/-! ### The full path -/

namespace StringTokenizer
variable {α : Type} [DecidableEq α] [Zero α] (self : StringTokenizer α) (backslash : α)

/-- The state is at a place; outside of the quoted sections, nothing is escaped. -/
def At (state : AdvanceState α) : Quoting α → Prop
  | .outside => state.inQuote = false ∧ state.inEscape = false
  | .inside quote escaped => state.inQuote = true ∧ state.inEscape = escaped ∧ state.quoteChar = quote

omit [Zero α] in
theorem advanceOne_at {state : AdvanceState α} {place : Quoting α} (here : At state place) (c : α) :
    if place = .outside ∧ self.delims.contains c then self.advanceOne backslash state c = (false, state)
    else ∃ state', self.advanceOne backslash state c = (true, state') ∧
      At state' (place.next self.quotes backslash c) := by
  rw [advanceOne]
  cases place with
  | outside =>
    obtain ⟨noQuote, noEscape⟩ := here
    rw [if_neg (Bool.eq_false_iff.mp noQuote), isDelim]
    split
    next both => rw [if_pos both.2]
    next free =>
      rw [if_neg fun delim => free ⟨rfl, delim⟩]
      refine ⟨_, rfl, ?_⟩
      rw [Quoting.next, isQuote]
      split
      next quoted => exact ⟨quoted, noEscape, rfl⟩
      next plain => exact ⟨Bool.eq_false_iff.mpr plain, noEscape⟩
  | inside quote escaped =>
    obtain ⟨inQuote, inEscape, quoteChar⟩ := here
    rw [if_pos inQuote, if_neg (fun both => by cases both.1), inEscape, quoteChar]
    cases escaped with
    | true => exact ⟨_, rfl, inQuote, rfl, rfl⟩
    | false =>
      rw [if_neg (by decide), Quoting.next]
      by_cases escapes : c = backslash
      · rw [if_pos escapes, if_pos escapes]
        exact ⟨_, rfl, inQuote, rfl, rfl⟩
      · rw [if_neg escapes, if_neg escapes]
        by_cases closes : c = quote
        · rw [if_pos closes, if_pos closes]
          exact ⟨_, rfl, rfl, rfl⟩
        · rw [if_neg closes, if_neg closes]
          exact ⟨_, rfl, inQuote, inEscape, quoteChar⟩

omit [Zero α] in
theorem fullToken_eq (fuel : Nat) {token : TokenState} {state : AdvanceState α} {place : Quoting α}
    (here : At state place) (inside : token.tokenEnd ≤ self.string.length)
    (enough : self.string.length - token.tokenEnd < fuel) :
    ∃ run rest tokenEnd, self.fullToken backslash fuel token state = some (true, { token with tokenEnd := tokenEnd }) ∧
      tokenEnd = token.tokenEnd + run.length ∧ tokenEnd ≤ self.string.length ∧
      marked self.delims self.quotes backslash place (self.string.drop token.tokenEnd) = run ++ rest ∧
      run.map Prod.fst = (self.string.drop token.tokenEnd).take run.length ∧ (∀ d ∈ run, d.2 = false) ∧
      (rest = [] ∨ ∃ c back, rest = (c, true) :: back) ∧
      rest = marked self.delims self.quotes backslash .outside (self.string.drop tokenEnd) := by
  induction fuel generalizing token state place with
  | zero => omega
  | succ fuel ih =>
    rw [fullToken]
    by_cases atEnd : token.tokenEnd = self.string.length
    · refine ⟨[], [], token.tokenEnd, if_pos atEnd, rfl, inside, ?_, rfl, (fun d none => by cases none), .inl rfl, ?_⟩
      · rw [atEnd, List.drop_length, marked, List.nil_append]
      · rw [atEnd, List.drop_length, marked]
    · have within : token.tokenEnd < self.string.length := by omega
      obtain ⟨c, read⟩ : ∃ c, self.string[token.tokenEnd]? = some c := ⟨_, List.getElem?_eq_getElem within⟩
      have front : self.string.drop token.tokenEnd = c :: self.string.drop (token.tokenEnd + 1) := by
        rw [List.drop_eq_getElem_cons within]
        rw [List.getElem?_eq_getElem within] at read
        rw [Option.some.inj read]
      have advanced := self.advanceOne_at backslash here c
      rw [if_neg atEnd, read, Option.bind_some, front, marked]
      by_cases separates : place = .outside ∧ self.delims.contains c
      · rw [if_pos separates] at advanced
        rw [if_pos separates, advanced]
        refine ⟨[], _, token.tokenEnd, rfl, rfl, inside, (List.nil_append _).symm, rfl, (fun d none => by cases none),
          .inr ⟨c, _, rfl⟩, ?_⟩
        rw [front, marked, if_pos ⟨rfl, separates.2⟩]
      · rw [if_neg separates] at advanced
        obtain ⟨state', steps, there⟩ := advanced
        rw [if_neg separates, steps]
        obtain ⟨run, rest, tokenEnd, result, length, bound, parts, chars, unmarked, ends, behind⟩ :=
          @ih { token with tokenEnd := token.tokenEnd + 1 } _ _ there within (by dsimp only; omega)
        dsimp only at result length parts chars
        refine ⟨(c, false) :: run, rest, tokenEnd, result, ?_, bound, ?_, ?_, fun d member => ?_, ends, behind⟩
        · rw [List.length_cons]
          omega
        · rw [parts, List.cons_append]
        · rw [List.map_cons, chars, List.length_cons, List.take_succ_cons]
        · rcases List.mem_cons.mp member with rfl | later
          · rfl
          · exact unmarked d later

/-- The runs of the text from a position on. -/
def runsFrom (pos : Nat) : List (List α) :=
  runs (marked self.delims self.quotes backslash .outside (self.string.drop pos))

omit [DecidableEq α] [Zero α] in
theorem drop_eq_cons {pos : Nat} (within : pos < self.string.length) :
    ∃ c, self.string[pos]? = some c ∧ self.string.drop pos = c :: self.string.drop (pos + 1) :=
  ⟨self.string[pos], List.getElem?_eq_getElem within, List.drop_eq_getElem_cons within⟩

omit [Zero α] in
theorem fullGetNextFrom_run (off : self.options &&& returnDelims = 0) (fuel : Nat) {token : TokenState}
    {state : AdvanceState α} (here : At state .outside) (inside : token.tokenEnd ≤ self.string.length)
    (enough : self.string.length - token.tokenEnd < fuel) :
    ∃ more token', self.fullGetNextFrom backslash fuel token state = some (more, token') ∧
      token'.tokenEnd ≤ self.string.length ∧
      ((more = false ∧ self.runsFrom backslash token.tokenEnd = []) ∨
        (more = true ∧ token.tokenEnd < token'.tokenEnd ∧
          self.runsFrom backslash token.tokenEnd = self.token token' :: self.runsFrom backslash token'.tokenEnd)) := by
  induction fuel generalizing token with
  | zero => omega
  | succ fuel ih =>
    rw [fullGetNextFrom]
    by_cases atEnd : token.tokenEnd = self.string.length
    · refine ⟨false, _, if_pos atEnd, inside, .inl ⟨rfl, ?_⟩⟩
      rw [runsFrom, atEnd, List.drop_length]
      rfl
    · obtain ⟨c, read, front⟩ := self.drop_eq_cons (lt_of_le_of_ne inside atEnd)
      have advanced := self.advanceOne_at backslash here c
      rw [if_neg atEnd, read, Option.bind_some, runsFrom, front, marked]
      by_cases separates : (Quoting.outside : Quoting α) = .outside ∧ self.delims.contains c = true
      · rw [if_pos separates] at advanced
        have none : ¬ self.options &&& returnDelims ≠ 0 := fun on => on off
        rw [advanced, if_pos separates, runs_separator]
        dsimp only
        rw [if_neg (by decide), if_neg none]
        obtain ⟨more, token', result, bound, next⟩ :=
          @ih { token with tokenBegin := token.tokenEnd, tokenEnd := token.tokenEnd + 1 } (by dsimp only; omega)
            (by dsimp only; omega)
        refine ⟨more, token', result, bound, ?_⟩
        rcases next with ⟨ends, none⟩ | ⟨returns, further, run⟩
        · exact .inl ⟨ends, none⟩
        · exact .inr ⟨returns, (Nat.lt_succ_self _).trans further, run⟩
      · rw [if_neg separates] at advanced
        obtain ⟨state', steps, there⟩ := advanced
        rw [steps, if_neg separates]
        dsimp only
        rw [if_pos rfl]
        obtain ⟨run, rest, tokenEnd, result, length, bound, parts, chars, unmarked, ends, behind⟩ :=
          @fullToken_eq α _ self backslash (self.string.length + 1)
            { token with tokenBegin := token.tokenEnd, tokenEnd := token.tokenEnd + 1 } state' _ there
            (by dsimp only; omega) (by dsimp only; omega)
        dsimp only at result length parts chars
        refine ⟨true, _, result, bound, .inr ⟨rfl, show token.tokenEnd < tokenEnd by omega, ?_⟩⟩
        rw [parts, ← List.cons_append, runs_append (List.cons_ne_nil _ _) _ ends, behind]
        · rw [List.map_cons, chars, StringTokenizer.token, runsFrom]
          dsimp only
          rw [front, length, show token.tokenEnd + 1 + run.length - token.tokenEnd = run.length + 1 by omega,
            List.take_succ_cons]
        · intro d member
          rcases List.mem_cons.mp member with rfl | later
          · rfl
          · exact unmarked d later

/-- Without delimiters, the calls return the runs. -/
theorem tokensFrom_runs (off : self.options &&& returnDelims = 0) (fuel : Nat) {token : TokenState}
    (inside : token.tokenEnd ≤ self.string.length) (enough : self.string.length - token.tokenEnd < fuel) :
    self.tokensFrom (self.fullGetNext backslash) fuel token = some (self.runsFrom backslash token.tokenEnd) := by
  induction fuel generalizing token with
  | zero => omega
  | succ fuel ih =>
    obtain ⟨more, token', result, bound, next⟩ :=
      @fullGetNextFrom_run α _ self backslash off (self.string.length + 1) { token with tokenIsDelim := false }
        ⟨false, false, 0⟩ ⟨rfl, rfl⟩ inside (by omega)
    dsimp only at next
    rw [tokensFrom, fullGetNext, result, Option.bind_some]
    rcases next with ⟨rfl, none⟩ | ⟨rfl, further, run⟩
    · rw [none]
      rfl
    · dsimp only
      rw [if_pos rfl, ih bound (by omega), run, Option.map_some]

/-! ### Delimiters as tokens -/

theorem fullGetNext_adjacent (on : self.options &&& returnDelims ≠ 0) {token : TokenState}
    (inside : token.tokenEnd < self.string.length) :
    ∃ token', self.fullGetNext backslash token = some (true, token') ∧ token'.tokenBegin = token.tokenEnd ∧
      token.tokenEnd < token'.tokenEnd ∧ token'.tokenEnd ≤ self.string.length := by
  obtain ⟨c, read, _⟩ := self.drop_eq_cons inside
  have here : At (⟨false, false, 0⟩ : AdvanceState α) .outside := ⟨rfl, rfl⟩
  have advanced := self.advanceOne_at backslash here c
  rw [fullGetNext, fullGetNextFrom, if_neg inside.ne, read, Option.bind_some]
  split at advanced
  next =>
    rw [advanced]
    dsimp only
    rw [if_neg (by decide), if_pos on]
    exact ⟨_, rfl, rfl, Nat.lt_succ_self _, inside⟩
  next =>
    obtain ⟨state', steps, there⟩ := advanced
    rw [steps]
    dsimp only
    rw [if_pos rfl]
    obtain ⟨run, _, tokenEnd, result, length, bound, _⟩ :=
      @fullToken_eq α _ self backslash (self.string.length + 1) ⟨token.tokenEnd, token.tokenEnd + 1, false⟩ state' _ there
        inside (by dsimp only; omega)
    dsimp only at length
    exact ⟨_, result, rfl, show token.tokenEnd < tokenEnd by omega, bound⟩

theorem tokensFrom_flatten (on : self.options &&& returnDelims ≠ 0) (fuel : Nat) {token : TokenState}
    (inside : token.tokenEnd ≤ self.string.length) (enough : self.string.length - token.tokenEnd < fuel) :
    ∃ tokens, self.tokensFrom (self.fullGetNext backslash) fuel token = some tokens ∧
      tokens.flatten = self.string.drop token.tokenEnd := by
  induction fuel generalizing token with
  | zero => omega
  | succ fuel ih =>
    rw [tokensFrom]
    by_cases atEnd : token.tokenEnd = self.string.length
    · rw [fullGetNext, fullGetNextFrom, if_pos atEnd, atEnd, List.drop_length]
      exact ⟨[], rfl, rfl⟩
    · obtain ⟨token', result, start, further, bound⟩ :=
        self.fullGetNext_adjacent backslash on (lt_of_le_of_ne inside atEnd)
      obtain ⟨tokens, rest, joined⟩ := ih bound (by omega)
      rw [result, Option.bind_some]
      dsimp only
      rw [if_pos rfl, rest]
      refine ⟨_, rfl, ?_⟩
      rw [List.flatten_cons, joined, StringTokenizer.token, start]
      conv_rhs => rw [← List.take_append_drop (token'.tokenEnd - token.tokenEnd) (self.string.drop token.tokenEnd)]
      rw [List.drop_drop, Nat.add_sub_cancel' further.le]

/-! ### The quick path -/

section Quick
variable {self} (plain : self.quotes = [])
include plain

omit [Zero α] in
theorem advanceOne_of_plain {state : AdvanceState α} (outside : state.inQuote = false) (c : α) :
    (self.advanceOne backslash state c).1 = !self.isDelim c ∧ (self.advanceOne backslash state c).2.inQuote = false := by
  rw [advanceOne, if_neg (Bool.eq_false_iff.mp outside), isQuote, plain]
  cases self.isDelim c with
  | true => exact ⟨rfl, outside⟩
  | false => exact ⟨rfl, rfl⟩

omit [Zero α] in
theorem quickToken_eq (fuel : Nat) (token : TokenState) {state : AdvanceState α} (outside : state.inQuote = false) :
    self.quickToken fuel token = self.fullToken backslash fuel token state := by
  induction fuel generalizing token state with
  | zero => rfl
  | succ fuel ih =>
    rw [quickToken, fullToken]
    congr 1
    congr 1
    funext c
    obtain ⟨same, outside'⟩ := advanceOne_of_plain backslash plain outside c
    dsimp only
    rw [same]
    cases self.isDelim c with
    | true => rfl
    | false => exact ih _ outside'

/-- Without quotes and options, both paths do the same. -/
theorem quickGetNext_eq (off : self.options &&& returnDelims = 0) (token : TokenState) :
    self.quickGetNext token = self.fullGetNext backslash token := by
  have same (fuel : Nat) (token : TokenState) {state : AdvanceState α} (outside : state.inQuote = false) :
      self.quickGetNextFrom fuel token = self.fullGetNextFrom backslash fuel token state := by
    induction fuel generalizing token state with
    | zero => rfl
    | succ fuel ih =>
      rw [quickGetNextFrom, fullGetNextFrom]
      congr 1
      congr 1
      funext c
      obtain ⟨same, outside'⟩ := advanceOne_of_plain backslash plain outside c
      dsimp only
      rw [same]
      cases self.isDelim c with
      | true =>
        have none : ¬ self.options &&& returnDelims ≠ 0 := fun on => on off
        rw [if_pos rfl, if_neg (by decide), if_neg none]
        exact ih _ outside'
      | false => exact quickToken_eq backslash plain _ _ outside'
  exact same _ _ rfl

end Quick

/-- Repeated calls of `GetNext` end. With delimiters as tokens, these are the text; without, they are the longest runs
that have no delimiter outside of the quoted sections, and without quotes the quick path returns those of the full
path. -/
theorem getNext_tokens :
    ∃ tokens, self.Tokenizes (self.getNext backslash) tokens ∧
      (self.options &&& returnDelims ≠ 0 → tokens.flatten = self.string) ∧
      (self.options &&& returnDelims = 0 →
        tokens = runs (marked self.delims self.quotes backslash .outside self.string)) ∧
      (self.quotes = [] → self.options = 0 →
        self.Tokenizes self.quickGetNext tokens ∧ self.Tokenizes (self.fullGetNext backslash) tokens) := by
  have path : self.getNext backslash = self.fullGetNext backslash := by
    funext token
    rw [getNext]
    split
    next quick =>
      rw [Bool.and_eq_true, List.isEmpty_iff, decide_eq_true_iff] at quick
      exact quickGetNext_eq backslash quick.1 (by rw [quick.2]; decide) token
    next => rfl
  rw [path]
  by_cases off : self.options &&& returnDelims = 0
  · have run := @tokensFrom_runs α _ _ self backslash off (self.string.length + 1) TokenState.init (Nat.zero_le _)
      (Nat.lt_succ_self _)
    refine ⟨_, ⟨_, run⟩, fun on => absurd off on, fun _ => ?_, fun plain _ => ?_⟩
    · rw [runsFrom, TokenState.init, List.drop_zero]
    · have same : self.quickGetNext = self.fullGetNext backslash := funext (quickGetNext_eq backslash plain off)
      rw [same]
      exact ⟨⟨_, run⟩, ⟨_, run⟩⟩
  · obtain ⟨tokens, run, joined⟩ := @tokensFrom_flatten α _ _ self backslash off (self.string.length + 1) TokenState.init
      (Nat.zero_le _) (Nat.lt_succ_self _)
    refine ⟨tokens, ⟨_, run⟩, fun _ => joined, fun none => absurd none off, fun _ none => ?_⟩
    rw [none] at off
    exact absurd (by decide) off

end StringTokenizer

end Libchrome.Base.Strings
