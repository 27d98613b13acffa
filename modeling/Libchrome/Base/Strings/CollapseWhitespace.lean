import Libchrome.Base.Strings.AsciiTest
import Libchrome.Library.Collapsing
import Libchrome.Library.FixedWidth

/-! `CollapseWhitespaceT` (`string_util.cc`). -/

namespace Libchrome.Base.Strings
open Library Collapsing

/-- `kWhitespaceWide`, without the zero at its end. -/
def kWhitespaceWide : List Int :=
  [0x0009, 0x000A, 0x000B, 0x000C, 0x000D, 0x0020, 0x0085, 0x00A0, 0x1680, 0x2000, 0x2001, 0x2002, 0x2003, 0x2004, 0x2005,
    0x2006, 0x2007, 0x2008, 0x2009, 0x200A, 0x2028, 0x2029, 0x202F, 0x205F, 0x3000]

def isUnicodeWhitespace (c : Int) : Bool := kWhitespaceWide.contains c

/-- `std::numeric_limits<int>::max()`. -/
def intMax : Nat := 2 ^ 31 - 1

/-- The variables of `CollapseWhitespaceT`. -/
structure Collapse (t : CharacterType) where
  result : List (BitVec t.bits)
  charsWritten : Int
  inWhitespace : Bool
  alreadyTrimmed : Bool

variable (p : Platform) {t : CharacterType}

/-- A character as the integer that it is promoted to. -/
def wide (c : BitVec t.bits) : Int := intOf (p.signed t) c

/-- `result[chars_written++] = c`; none when it writes outside of `result`, or when `chars_written` overflows. -/
def putCharacter (c : BitVec t.bits) (s : Collapse t) : Option (Collapse t) :=
  if 0 ≤ s.charsWritten ∧ s.charsWritten < s.result.length ∧ s.charsWritten < intMax then
    some { s with result := s.result.set s.charsWritten.toNat c, charsWritten := s.charsWritten + 1 }
  else none

/-- Reduce all whitespace sequences to a single space. -/
def startRun (s : Collapse t) : Option (Collapse t) :=
  if !s.inWhitespace then putCharacter (BitVec.ofNat t.bits 0x20) { s with inWhitespace := true } else some s

/-- Whitespace sequences containing CR or LF are eliminated entirely. -/
def breakRun (trimSequencesWithLineBreaks : Bool) (c : BitVec t.bits) (s : Collapse t) : Collapse t :=
  if trimSequencesWithLineBreaks && !s.alreadyTrimmed && (wide p c = 0x0A || wide p c = 0x0D) then
    { s with alreadyTrimmed := true, charsWritten := s.charsWritten - 1 }
  else s

/-- One round of the loop. -/
def visitCharacter (trimSequencesWithLineBreaks : Bool) (s : Collapse t) (c : BitVec t.bits) : Option (Collapse t) :=
  if isUnicodeWhitespace (wide p c) then (startRun s).map (breakRun p trimSequencesWithLineBreaks c)
  else putCharacter c { s with inWhitespace := false, alreadyTrimmed := false }

def visitCharacters (trimSequencesWithLineBreaks : Bool) (s : Collapse t) : List (BitVec t.bits) → Option (Collapse t)
  | [] => some s
  | c :: rest => (visitCharacter p trimSequencesWithLineBreaks s c).bind fun s =>
      visitCharacters trimSequencesWithLineBreaks s rest

/-- `result.resize(chars_written)`, which throws for what is no size. -/
def resize (s : Collapse t) : Option (List (BitVec t.bits)) :=
  if s.charsWritten < 0 then none
  else some (s.result.take s.charsWritten.toNat ++ List.replicate (s.charsWritten.toNat - s.result.length) 0)

/-- What follows the loop. -/
def finishCollapse (s : Collapse t) : Option (List (BitVec t.bits)) :=
  resize (if s.inWhitespace && !s.alreadyTrimmed then { s with charsWritten := s.charsWritten - 1 } else s)

/-- `CollapseWhitespaceT`; none when it writes outside of its result, or when its `int` overflows. -/
def collapseWhitespaceT (trimSequencesWithLineBreaks : Bool) (text : List (BitVec t.bits)) : Option (List (BitVec t.bits)) :=
  (visitCharacters p trimSequencesWithLineBreaks ⟨List.replicate text.length 0, 0, true, true⟩ text).bind finishCollapse

/-! ### What it is for -/

/-- The character is whitespace. -/
def isBlank (c : BitVec t.bits) : Bool := isUnicodeWhitespace (wide p c)

/-- The character makes a run of whitespace vanish. -/
def breaksRun (trimSequencesWithLineBreaks : Bool) (c : BitVec t.bits) : Bool :=
  trimSequencesWithLineBreaks && (wide p c = 0x0A || wide p c = 0x0D)

/-- The text with leading and trailing whitespace removed, and each inner run replaced by a space, or by nothing when
it has a line break and these are trimmed. -/
def collapsed (trimSequencesWithLineBreaks : Bool) (text : List (BitVec t.bits)) : List (BitVec t.bits) :=
  collapse (isBlank p) (breaksRun p trimSequencesWithLineBreaks) (BitVec.ofNat t.bits 0x20) text

variable {p} {trim : Bool}

theorem wide_space : wide p (BitVec.ofNat t.bits 0x20) = 0x20 := by
  cases t <;> rw [wide] <;> cases p.signed _ <;> rfl

theorem isBlank_space : isBlank p (BitVec.ofNat t.bits 0x20) = true := by
  rw [isBlank, wide_space]
  rfl

theorem breaksRun_space : breaksRun p trim (BitVec.ofNat t.bits 0x20) = false := by
  rw [breaksRun, wide_space]
  exact Bool.and_false _

/-! ### The loop writes the collapsed text -/

/-- The result starts with this text, and has room for as many characters as are left. -/
structure Written (result : List (BitVec t.bits)) (charsWritten : Int) (text : List (BitVec t.bits)) (left : Nat) : Prop where
  written : charsWritten = text.length
  holds : result.take text.length = text
  room : text.length + left ≤ result.length
  small : text.length ≤ intMax

variable {text : List (BitVec t.bits)} {left : Nat}

theorem Written.less {result : List (BitVec t.bits)} {charsWritten : Int}
    (there : Written result charsWritten text (left + 1)) : Written result charsWritten text left :=
  { there with room := (Nat.le_succ _).trans there.room }

variable {c : BitVec t.bits}

theorem Written.back {result : List (BitVec t.bits)} {charsWritten : Int}
    (there : Written result charsWritten (text ++ [c]) left) : Written result (charsWritten - 1) text left := by
  obtain ⟨written, holds, room, small⟩ := there
  rw [List.length_append, List.length_singleton] at *
  refine ⟨by omega, ?_, by omega, (Nat.le_succ _).trans small⟩
  have shorter := congrArg (List.take text.length) holds
  rwa [List.take_take, Nat.min_eq_left (Nat.le_succ _), List.take_left] at shorter

variable {s : Collapse t}

theorem putCharacter_written (there : Written s.result s.charsWritten text (left + 1)) (c : BitVec t.bits)
    (small : text.length < intMax) :
    ∃ result, putCharacter c s = some { s with result := result, charsWritten := s.charsWritten + 1 } ∧
      Written result (s.charsWritten + 1) (text ++ [c]) left := by
  obtain ⟨written, holds, room, _⟩ := there
  have inside : text.length < s.result.length := by omega
  refine ⟨s.result.set text.length c, ?_, ?_, ?_, ?_, ?_⟩
  · rw [putCharacter, written, Int.toNat_natCast, if_pos ⟨by omega, by omega, by omega⟩]
  · rw [written, List.length_append, List.length_singleton]
    rfl
  · rw [List.length_append, List.length_singleton, List.take_set, List.take_succ_eq_append_getElem inside, holds,
      List.set_append_right _ _ le_rfl, Nat.sub_self]
    rfl
  · rw [List.length_append, List.length_singleton, List.length_set]
    omega
  · rw [List.length_append]
    exact small

theorem putCharacter_full (there : Written s.result s.charsWritten text left) (c : BitVec t.bits)
    (full : ¬ text.length < intMax) : putCharacter c s = none := by
  rw [putCharacter, there.written, if_neg fun all => full (Int.ofNat_lt.mp all.2.2)]

/-- What is written at this place behind the output that stays. -/
def pendingSpace : Place → List (BitVec t.bits)
  | .word => []
  | .gap => [BitVec.ofNat t.bits 0x20]
  | .dropped => []

/-- The loop is at this place, and has written this output and what is pending. -/
structure Collapse.At (s : Collapse t) (place : Place) (out : List (BitVec t.bits)) (left : Nat) : Prop where
  output : Written s.result s.charsWritten (out ++ pendingSpace place) left
  inWhitespace : s.inWhitespace = decide (place ≠ .word)
  alreadyTrimmed : s.alreadyTrimmed = decide (place = .dropped)

theorem resize_written (there : Written s.result s.charsWritten text left) : resize s = some text := by
  have room := there.room
  rw [resize, there.written, if_neg (Int.not_lt.mpr (Int.natCast_nonneg _)), Int.toNat_natCast, there.holds,
    Nat.sub_eq_zero_of_le (by omega), List.replicate_zero, List.append_nil]

variable {out : List (BitVec t.bits)}

theorem finishCollapse_at {place : Place} (there : s.At place out left) : finishCollapse s = some out := by
  obtain ⟨output, inWhitespace, alreadyTrimmed⟩ := there
  rw [finishCollapse, inWhitespace, alreadyTrimmed]
  cases place with
  | word =>
    rw [pendingSpace, List.append_nil] at output
    exact resize_written output
  | gap => exact resize_written output.back
  | dropped =>
    rw [pendingSpace, List.append_nil] at output
    exact resize_written output

theorem visitCharacter_solid (trim : Bool) {place : Place} (there : s.At place out (left + 1))
    (solid : isBlank p c = false) :
    ((out ++ pendingSpace place).length < intMax →
      ∃ s', visitCharacter p trim s c = some s' ∧ s'.At .word (out ++ pendingSpace place ++ [c]) left) ∧
    (¬ (out ++ pendingSpace place).length < intMax → visitCharacter p trim s c = none) := by
  have stays : ¬ isUnicodeWhitespace (wide p c) = true := Bool.eq_false_iff.mp solid
  have output : Written { s with inWhitespace := false, alreadyTrimmed := false }.result _ _ _ := there.output
  rw [visitCharacter, if_neg stays]
  constructor
  · intro small
    obtain ⟨result, put, written⟩ := putCharacter_written output c small
    refine ⟨_, put, ?_, rfl, rfl⟩
    rw [pendingSpace, List.append_nil]
    exact written
  · exact putCharacter_full output c

/-- Where a run of whitespace goes on behind this character. -/
def inRun (p : Platform) (trim : Bool) (c : BitVec t.bits) : Place := if breaksRun p trim c then .dropped else .gap

theorem visitCharacter_blank (blank : isBlank p c = true) :
    visitCharacter p trim s c = (startRun s).map (breakRun p trim c) :=
  if_pos blank

theorem breakRun_at (there : s.At .gap out left) : (breakRun p trim c s).At (inRun p trim c) out left := by
  obtain ⟨output, inWhitespace, alreadyTrimmed⟩ := there
  have whole : s.alreadyTrimmed = false := alreadyTrimmed
  have decides : (trim && !s.alreadyTrimmed && (wide p c = 0x0A || wide p c = 0x0D)) = breaksRun p trim c := by
    rw [whole, Bool.not_false, Bool.and_true, breaksRun]
  rw [breakRun, decides, inRun]
  by_cases broken : breaksRun p trim c = true
  · rw [if_pos broken, if_pos broken]
    refine ⟨?_, inWhitespace, rfl⟩
    rw [pendingSpace, List.append_nil]
    exact output.back
  · rw [if_neg broken, if_neg broken]
    exact ⟨output, inWhitespace, whole⟩

theorem visitCharacter_word (trim : Bool) (there : s.At .word out (left + 1)) (blank : isBlank p c = true) :
    (out.length < intMax → ∃ s', visitCharacter p trim s c = some s' ∧ s'.At (inRun p trim c) out left) ∧
    (¬ out.length < intMax → visitCharacter p trim s c = none) := by
  obtain ⟨output, inWhitespace, alreadyTrimmed⟩ := there
  rw [pendingSpace, List.append_nil] at output
  have outside : (!s.inWhitespace) = true := by rw [inWhitespace]; rfl
  have started : Written { s with inWhitespace := true }.result _ _ _ := output
  rw [visitCharacter_blank blank, startRun, if_pos outside]
  constructor
  · intro small
    obtain ⟨result, put, written⟩ := putCharacter_written started (BitVec.ofNat t.bits 0x20) small
    rw [put, Option.map_some]
    exact ⟨_, rfl, breakRun_at ⟨written, rfl, alreadyTrimmed⟩⟩
  · intro full
    rw [putCharacter_full started _ full, Option.map_none]

theorem visitCharacter_gap (trim : Bool) (there : s.At .gap out (left + 1)) (blank : isBlank p c = true) :
    ∃ s', visitCharacter p trim s c = some s' ∧ s'.At (inRun p trim c) out left := by
  have inside : ¬ (!s.inWhitespace) = true := by rw [there.inWhitespace]; decide
  rw [visitCharacter_blank blank, startRun, if_neg inside, Option.map_some]
  exact ⟨_, rfl, breakRun_at ⟨there.output.less, there.inWhitespace, there.alreadyTrimmed⟩⟩

theorem visitCharacter_dropped (trim : Bool) (there : s.At .dropped out (left + 1)) (blank : isBlank p c = true) :
    ∃ s', visitCharacter p trim s c = some s' ∧ s'.At .dropped out left := by
  have inside : ¬ (!s.inWhitespace) = true := by rw [there.inWhitespace]; decide
  have stays : ¬ (trim && !s.alreadyTrimmed && (wide p c = 0x0A || wide p c = 0x0D)) = true := by
    rw [there.alreadyTrimmed, decide_eq_true rfl, Bool.not_true, Bool.and_false, Bool.false_and]
    decide
  rw [visitCharacter_blank blank, startRun, if_neg inside, Option.map_some, breakRun, if_neg stays]
  exact ⟨s, rfl, there.output.less, there.inWhitespace, there.alreadyTrimmed⟩

/-- The rest of the run, from each place: the reader's output, unless it reaches further than an `int` counts. -/
theorem visitCharacters_eq {place : Place} {rest : List (BitVec t.bits)} (there : s.At place out rest.length) :
    (visitCharacters p trim s rest).bind finishCollapse =
      if out.length + reach (isBlank p) (breaksRun p trim) place rest ≤ intMax then
        some (out ++ collapseFrom (isBlank p) (breaksRun p trim) (BitVec.ofNat t.bits 0x20) place rest)
      else none := by
  induction rest generalizing s place out with
  | nil =>
    have small : out.length + reach (isBlank p) (breaksRun p trim) place ([] : List (BitVec t.bits)) ≤ intMax := by
      have within := there.output.small
      rw [List.length_append] at within
      cases place <;> exact within
    rw [if_pos small, visitCharacters, Option.bind_some, finishCollapse_at there]
    cases place <;> rw [collapseFrom, List.append_nil]
  | cons c rest ih =>
    rw [visitCharacters]
    have stepped {s' : Collapse t} {place' : Place} {out' : List (BitVec t.bits)} {reached : Nat}
        {output : List (BitVec t.bits)} (visited : visitCharacter p trim s c = some s') (after : s'.At place' out' rest.length)
        (reaches : out'.length + reach (isBlank p) (breaksRun p trim) place' rest ≤ intMax ↔ reached ≤ intMax)
        (same : out' ++ collapseFrom (isBlank p) (breaksRun p trim) (BitVec.ofNat t.bits 0x20) place' rest = output) :
        ((visitCharacter p trim s c).bind fun s => visitCharacters p trim s rest).bind finishCollapse =
          if reached ≤ intMax then some output else none := by
      rw [visited, Option.bind_some, ih after, same]
      exact if_congr reaches rfl rfl
    have within := there.output.small
    by_cases blank : isBlank p c = true
    · cases place with
      | word =>
        obtain ⟨fits, full⟩ := visitCharacter_word trim there blank
        rw [reach, if_pos blank, collapseFrom, if_pos blank]
        by_cases small : out.length < intMax
        · obtain ⟨s', visited, after⟩ := fits small
          exact stepped visited after (by rw [inRun]; omega) rfl
        · rw [full small, if_neg (by omega)]
          rfl
      | gap =>
        obtain ⟨s', visited, after⟩ := visitCharacter_gap trim there blank
        rw [reach, if_pos blank, collapseFrom, if_pos blank]
        rw [List.length_append, pendingSpace, List.length_singleton] at within
        exact stepped visited after (by rw [inRun]; omega) rfl
      | dropped =>
        obtain ⟨s', visited, after⟩ := visitCharacter_dropped trim there blank
        rw [reach, if_pos blank, collapseFrom, if_pos blank]
        exact stepped visited after Iff.rfl rfl
    · have solid : isBlank p c = false := Bool.eq_false_iff.mpr blank
      obtain ⟨fits, full⟩ := visitCharacter_solid trim there solid
      have output : out ++ pendingSpace place ++ [c] ++
          collapseFrom (isBlank p) (breaksRun p trim) (BitVec.ofNat t.bits 0x20) .word rest =
          out ++ collapseFrom (isBlank p) (breaksRun p trim) (BitVec.ofNat t.bits 0x20) place (c :: rest) := by
        rw [List.append_assoc, List.append_assoc]
        cases place <;> rw [collapseFrom, if_neg blank] <;> rfl
      have reached : out.length + reach (isBlank p) (breaksRun p trim) place (c :: rest) =
          (out ++ pendingSpace place ++ [c]).length + reach (isBlank p) (breaksRun p trim) .word rest := by
        rw [List.length_append, List.length_append, List.length_singleton]
        cases place <;> rw [reach, if_neg blank] <;> simp only [pendingSpace, List.length_nil, List.length_singleton] <;> omega
      by_cases small : (out ++ pendingSpace place).length < intMax
      · obtain ⟨s', visited, after⟩ := fits small
        exact stepped visited after (by rw [reached]) output
      · rw [full small, reached, List.length_append, if_neg (by rw [List.length_singleton]; omega)]
        rfl

/-- How many characters the output holds at most: those that are not whitespace, the spaces that inner runs leave, and
the space that trailing whitespace leaves until the end. -/
def mostWritten (p : Platform) (trimSequencesWithLineBreaks : Bool) (text : List (BitVec t.bits)) : Nat :=
  text.countP (fun c => !isBlank p c) +
    spacesLeft (isBlank p) (breaksRun p trimSequencesWithLineBreaks) (BitVec.ofNat t.bits 0x20) (trimEnds (isBlank p) text) +
    (endsBlank (isBlank p) text).toNat

theorem mostWritten_eq (text : List (BitVec t.bits)) :
    mostWritten p trim text = (collapsed p trim text).length + (endsBlank (isBlank p) text).toNat := by
  rw [mostWritten, collapsed, length_collapse]

theorem collapseWhitespaceT_eq (text : List (BitVec t.bits)) :
    collapseWhitespaceT p trim text = if mostWritten p trim text ≤ intMax then some (collapsed p trim text) else none := by
  have there : Collapse.At ⟨List.replicate text.length 0, 0, true, true⟩ .dropped ([] : List (BitVec t.bits)) text.length :=
    ⟨⟨rfl, rfl, by rw [List.length_replicate]; exact (Nat.zero_add _).le, Nat.zero_le _⟩, rfl, rfl⟩
  have reaches := (@reach_eq _ (isBlank p) (breaksRun p trim) (BitVec.ofNat t.bits 0x20) text).2.2
  have positive : 1 ≤ intMax := by decide
  rw [collapseWhitespaceT, visitCharacters_eq there, List.length_nil, Nat.zero_add, List.nil_append,
    collapseFrom_dropped, mostWritten_eq]
  dsimp only at reaches
  rw [collapseFrom_dropped] at reaches
  exact if_congr (by rw [collapsed]; omega) rfl rfl

theorem mostWritten_collapsed (text : List (BitVec t.bits)) :
    mostWritten p trim (collapsed p trim text) = (collapsed p trim text).length := by
  have ends : endsBlank (isBlank p) (collapsed p trim text) = false := by
    rw [collapsed, ← collapseFrom_dropped]
    exact endsBlank_collapseFrom _ _
  rw [mostWritten_eq, ends, collapsed, collapsed, collapse_collapse isBlank_space breaksRun_space]
  rfl

/-- `CollapseWhitespaceT` writes nothing outside its result and returns the collapsed text, which it leaves as it is, if
and only if its output never holds more characters than an `int` counts. -/
theorem collapseWhitespaceT_iff (p : Platform) (t : CharacterType) (trimSequencesWithLineBreaks : Bool)
    (text : List (BitVec t.bits)) :
    (collapseWhitespaceT p trimSequencesWithLineBreaks text = some (collapsed p trimSequencesWithLineBreaks text) ∧
      collapseWhitespaceT p trimSequencesWithLineBreaks (collapsed p trimSequencesWithLineBreaks text) =
        some (collapsed p trimSequencesWithLineBreaks text)) ↔
      mostWritten p trimSequencesWithLineBreaks text ≤ intMax := by
  rw [collapseWhitespaceT_eq, collapseWhitespaceT_eq, mostWritten_collapsed]
  constructor
  · rintro ⟨first, _⟩
    by_contra more
    rw [if_neg more] at first
    cases first
  · intro fits
    have shorter : (collapsed p trimSequencesWithLineBreaks text).length ≤ intMax := by
      rw [mostWritten_eq] at fits
      omega
    rw [if_pos fits, if_pos shorter, collapsed, collapsed, collapse_collapse isBlank_space breaksRun_space]
    exact ⟨rfl, rfl⟩

/-- A text of `2^31` letters. -/
def hugeText : List (BitVec CharacterType.char.bits) := List.replicate (2 ^ 31) 0x61

/-- Where `char` has a sign, a text of `2^31` letters makes `chars_written` overflow. -/
theorem hugeText_overflows :
    collapseWhitespaceT ⟨.word64, fun t => t == .char⟩ false hugeText = none ∧
      ¬ (collapseWhitespaceT ⟨.word64, fun t => t == .char⟩ false hugeText =
          some (collapsed ⟨.word64, fun t => t == .char⟩ false hugeText)) := by
  have solid : isBlank ⟨.word64, fun t => t == .char⟩ (0x61 : BitVec CharacterType.char.bits) = false := by decide
  have many : ¬ mostWritten ⟨.word64, fun t => t == .char⟩ false hugeText ≤ intMax := by
    have bound : intMax < 2 ^ 31 := by decide
    rw [mostWritten, hugeText, List.countP_replicate, if_pos (by rw [solid]; rfl)]
    omega
  rw [collapseWhitespaceT_eq, if_neg many]
  exact ⟨rfl, fun same => by cases same⟩

end Libchrome.Base.Strings
