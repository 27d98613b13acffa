import Libchrome.Base.Strings.StringSplit
import Libchrome.Library.Replacing

/-! `ReplaceFirstSubstringAfterOffset` and `ReplaceSubstringsAfterOffset` (`string_util.cc`). -/

namespace Libchrome.Base.Strings
open Library.Searching Library.Replacing

/-! ### `std::basic_string` -/

/-- The length of the longest string, which is that of an object. -/
structure MaxSize where
  value : Nat
  below : value < 2 ^ 63

structure StdString (α : Type) (maxSize : MaxSize) where
  chars : List α
  fits : chars.length ≤ maxSize.value

section Operations
variable {α : Type} [DecidableEq α] [Zero α] (maxSize : MaxSize)

/-- `replace`; none when it throws. -/
def stdReplace (text : List α) (pos n : Nat) (s : List α) : Option (List α) :=
  if text.length < pos then none
  else
    let replaced := text.take pos ++ (s ++ text.drop (pos + n))
    if replaced.length ≤ maxSize.value then some replaced else none

/-- `resize`; none when it throws. -/
def stdResize (text : List α) (n : Nat) : Option (List α) :=
  if n ≤ maxSize.value then some (text.take n ++ List.replicate (n - text.length) 0) else none

/-- `memmove` between two places of a text; none when one of them is not inside of it. -/
def memmove (text : List α) (dst src length : Nat) : Option (List α) :=
  if dst + length ≤ text.length ∧ src + length ≤ text.length then
    some (text.take dst ++ ((text.drop src).take length ++ text.drop (dst + length)))
  else none

/-- The difference of two `size_t`; none when it underflows. -/
def checkedSub (a b : Nat) : Option Nat := if b ≤ a then some (a - b) else none

/-! ### The three ways to replace -/

variable (find rep : List α)

/-- The loop for texts of one length; none when it does not end within `fuel` rounds, or fails. -/
def replaceEqual : Nat → List α → Nat → Option (List α)
  | 0, _, _ => none
  | fuel + 1, str, offset =>
    (stdReplace maxSize str offset find.length rep).bind fun str =>
      let offset := stdFind str find (sizeAdd offset rep.length)
      if offset = npos then some str else replaceEqual fuel str offset

/-- The loop for a shorter replacement, which moves what is between the matches to the front. -/
def shrinkLoop (strLength : Nat) : Nat → List α → Nat → Nat → Option (List α)
  | 0, _, _, _ => none
  | fuel + 1, str, writeOffset, offset =>
    (if rep.length = 0 then some str else stdReplace maxSize str writeOffset rep.length rep).bind fun str =>
      let writeOffset := if rep.length = 0 then writeOffset else sizeAdd writeOffset rep.length
      let readOffset := sizeAdd offset find.length
      let offset := min (stdFind str find readOffset) strLength
      (checkedSub offset readOffset).bind fun length =>
        (if length = 0 then some str else memmove str writeOffset readOffset length).bind fun str =>
          let writeOffset := if length = 0 then writeOffset else sizeAdd writeOffset length
          if offset < strLength then shrinkLoop strLength fuel str writeOffset offset
          else stdResize maxSize str writeOffset

/-- The loop that finds the final length and the last match. -/
def countMatches (str : List α) (expansion : Nat) : Nat → Nat → Nat → Option (Nat × Nat)
  | 0, _, _ => none
  | fuel + 1, finalLength, offset =>
    let finalLength := sizeAdd finalLength expansion
    let currentMatch := offset
    let offset := stdFind str find (sizeAdd offset find.length)
    if offset = npos then some (finalLength, currentMatch) else countMatches str expansion fuel finalLength offset

/-- One round of the loop for a longer replacement: the text and `write_offset` behind it. -/
def expandStep (str : List α) (prevMatch writeOffset currentMatch : Nat) : Option (List α × Nat) :=
  let readOffset := sizeAdd currentMatch find.length
  (checkedSub prevMatch readOffset).bind fun length =>
    (if length = 0 then some writeOffset else checkedSub writeOffset length).bind fun writeOffset =>
      (if length = 0 then some str else memmove str writeOffset readOffset length).bind fun str =>
        (checkedSub writeOffset rep.length).bind fun writeOffset =>
          (stdReplace maxSize str writeOffset rep.length rep).map fun str => (str, writeOffset)

/-- The loop for a longer replacement, which works backwards. -/
def expandLoop (firstMatch : Nat) : Nat → List α → Nat → Nat → Nat → Option (List α)
  | 0, _, _, _, _ => none
  | fuel + 1, str, prevMatch, writeOffset, currentMatch =>
    (expandStep maxSize find rep str prevMatch writeOffset currentMatch).bind fun step =>
      if currentMatch = firstMatch then some step.1
      else
        (checkedSub currentMatch 1).bind fun last =>
          expandLoop firstMatch fuel step.1 currentMatch step.2 (stdRfind step.1 find last)

/-- `DoReplaceSubstringsAfterOffset`; none when an index underflows, a write is not inside the string, or it throws. -/
def doReplaceSubstringsAfterOffset (str : List α) (offset : Nat) (findThis replaceWith : BasicStringPiece α)
    (replaceAll : Bool) : Option (List α) :=
  let find := findThis.chars
  let rep := replaceWith.chars
  let offset := stdFind str find offset
  if offset = npos then some str
  else if !replaceAll then stdReplace maxSize str offset find.length rep
  else if find.length = rep.length then replaceEqual maxSize find rep (str.length + 1) str offset
  else if rep.length < find.length then shrinkLoop maxSize find rep str.length (str.length + 1) str offset offset
  else
    (countMatches find str (rep.length - find.length) (str.length + 1) str.length offset).bind fun counted =>
      (stdResize maxSize str counted.1).bind fun grown =>
        expandLoop maxSize find rep offset (str.length + 3) grown str.length counted.1 counted.2

def replaceFirstSubstringAfterOffset (str : List α) (startOffset : Nat) (findThis replaceWith : BasicStringPiece α) :
    Option (List α) :=
  doReplaceSubstringsAfterOffset maxSize str startOffset findThis replaceWith false

def replaceSubstringsAfterOffset (str : List α) (startOffset : Nat) (findThis replaceWith : BasicStringPiece α) :
    Option (List α) :=
  doReplaceSubstringsAfterOffset maxSize str startOffset findThis replaceWith true

end Operations

/-! ### Matches -/

section Matches
variable {α : Type} [DecidableEq α] {text find rep : List α} {all : Bool}

/-- The position is the first match from another one on. -/
structure Found (text find : List α) (pos x : Nat) : Prop where
  above : pos ≤ x
  within : x + find.length ≤ text.length
  matched : matchesAt text find x = true
  clear : ∀ i, pos ≤ i → i < x → matchesAt text find i = false

theorem stdFind_found_or (some_ : find ≠ []) (short : text.length < npos) (pos : Nat) :
    (stdFind text find pos = npos ∧ ¬ find <:+: text.drop pos) ∨
      (stdFind text find pos ≠ npos ∧ Found text find pos (stdFind text find pos)) := by
  have positive := List.length_pos_iff.mpr some_
  rcases stdFind_cases some_ pos with ⟨none, absent⟩ | ⟨front, back, rest, found, first⟩
  · exact .inl ⟨none, absent⟩
  · have lengths := congrArg List.length rest
    rw [List.length_drop, List.length_append, List.length_append] at lengths
    right
    rw [found]
    refine ⟨by omega, by omega, by omega, ?_, fun i from_ before => ?_⟩
    · rw [← matchesAt_drop, rest, matchesAt, List.drop_left, List.take_left]
      exact decide_eq_true rfl
    · rw [← Nat.add_sub_cancel' from_, ← matchesAt_drop]
      exact first (i - pos) (by omega)

/-- Nothing is replaced in front of the first match. -/
theorem Found.replace {pos x : Nat} (found : Found text find pos x) :
    replaceLeftToRight all find rep 0 (text.drop pos) =
      (text.drop pos).take (x - pos) ++ replaceLeftToRight all find rep 0 (text.drop x) := by
  have above := found.above
  have clear : ∀ i < x - pos, matchesAt (text.drop pos) find i = false := by
    intro i before
    rw [matchesAt_drop]
    exact found.clear (pos + i) (by omega) (by omega)
  rw [replaceLeftToRight_of_clear clear, List.drop_drop, Nat.add_sub_cancel' above]

theorem Found.take_append {pos x : Nat} (found : Found text find pos x) :
    text.take x ++ replaceLeftToRight all find rep 0 (text.drop x) =
      text.take pos ++ replaceLeftToRight all find rep 0 (text.drop pos) := by
  have parts : text.take x = text.take pos ++ (text.drop pos).take (x - pos) := by
    rw [← List.take_add, Nat.add_sub_cancel' found.above]
  rw [parts, found.replace, List.append_assoc]

theorem replaceLeftToRight_at {x : Nat} (some_ : find ≠ []) (matched : matchesAt text find x = true) :
    replaceLeftToRight all find rep 0 (text.drop x) = rep ++
      if all then replaceLeftToRight all find rep 0 (text.drop (x + find.length)) else text.drop (x + find.length) := by
  have front : matchesAt (text.drop x) find 0 = true := by
    rw [matchesAt_drop]
    exact matched
  rw [replaceLeftToRight_of_match some_ front, List.drop_drop]

end Matches

/-! The replacement of substrings by shorter ones, and by ones of their length. -/

section Steps
variable {α : Type} [DecidableEq α] [Zero α] {maxSize : MaxSize}

omit [DecidableEq α] [Zero α] in
theorem stdReplace_of_room {text s : List α} {pos n : Nat} (inside : pos + n ≤ text.length) (same : n = s.length)
    (fits : text.length ≤ maxSize.value) :
    stdReplace maxSize text pos n s = some (text.take pos ++ (s ++ text.drop (pos + s.length))) := by
  have length : (text.take pos ++ (s ++ text.drop (pos + n))).length = text.length := by
    rw [List.length_append, List.length_append, List.length_take, List.length_drop]
    omega
  rw [stdReplace, if_neg (by omega)]
  dsimp only
  rw [length, if_pos fits, same]

omit [DecidableEq α] [Zero α] in
theorem stdReplace_unless {text s : List α} {pos : Nat} (inside : pos + s.length ≤ text.length)
    (fits : text.length ≤ maxSize.value) :
    (if s.length = 0 then some text else stdReplace maxSize text pos s.length s) =
      some (text.take pos ++ (s ++ text.drop (pos + s.length))) := by
  split
  next none =>
    rw [List.length_eq_zero_iff.mp none, List.nil_append, List.length_nil, Nat.add_zero, List.take_append_drop]
  next => exact stdReplace_of_room inside rfl fits

omit [DecidableEq α] [Zero α] in
theorem memmove_unless {text : List α} {dst src length : Nat} (inside : dst + length ≤ text.length)
    (within : src + length ≤ text.length) :
    (if length = 0 then some text else memmove text dst src length) =
      some (text.take dst ++ ((text.drop src).take length ++ text.drop (dst + ((text.drop src).take length).length))) := by
  have moved : ((text.drop src).take length).length = length := by
    rw [List.length_take, List.length_drop]
    omega
  rw [moved]
  split
  next none => rw [none, List.take_zero, List.nil_append, Nat.add_zero, List.take_append_drop]
  next => exact if_pos ⟨inside, within⟩

section Overwrite
variable {β : Type} {text s : List β} {pos i : Nat} (room : pos + s.length ≤ text.length)
include room

theorem length_overwrite : (text.take pos ++ (s ++ text.drop (pos + s.length))).length = text.length := by
  rw [List.length_append, List.length_append, List.length_take, List.length_drop]
  omega

theorem take_overwrite :
    (text.take pos ++ (s ++ text.drop (pos + s.length))).take (pos + s.length) = text.take pos ++ s := by
  rw [← List.append_assoc]
  exact List.take_left' (by rw [List.length_append, List.length_take, Nat.min_eq_left (by omega)])

theorem drop_overwrite (behind : pos + s.length ≤ i) :
    (text.take pos ++ (s ++ text.drop (pos + s.length))).drop i = text.drop i := by
  have front : (text.take pos ++ s).length = pos + s.length := by
    rw [List.length_append, List.length_take, Nat.min_eq_left (by omega)]
  rw [← List.append_assoc, ← Nat.add_sub_cancel' behind, ← front, List.drop_length_add_append, front, List.drop_drop]

end Overwrite

omit [DecidableEq α] in
theorem stdResize_of_le {text : List α} {n : Nat} (shorter : n ≤ text.length) (fits : text.length ≤ maxSize.value) :
    stdResize maxSize text n = some (text.take n) := by
  rw [stdResize, if_pos (shorter.trans fits), Nat.sub_eq_zero_of_le shorter, List.replicate_zero, List.append_nil]

theorem sizeAdd_of_lt {a b : Nat} (small : a + b < 2 ^ 64) : sizeAdd a b = a + b := Nat.mod_eq_of_lt small

theorem sizeAdd_unless {a b : Nat} (small : a + b < 2 ^ 64) : (if b = 0 then a else sizeAdd a b) = a + b := by
  split
  next none => rw [none, Nat.add_zero]
  next => exact sizeAdd_of_lt small

theorem checkedSub_of_le {a b : Nat} (le : b ≤ a) : checkedSub a b = some (a - b) := if_pos le

end Steps

section Forwards
variable {α : Type} [DecidableEq α] [Zero α] {maxSize : MaxSize} {find rep : List α} (some_ : find ≠ [])
include some_

omit [Zero α] in
/-- The loop for texts of one length replaces from the match on. -/
theorem replaceEqual_eq (same : find.length = rep.length) (fuel : Nat) {str : List α} {offset : Nat}
    (fits : str.length ≤ maxSize.value) (found : matchesAt str find offset = true) (enough : str.length - offset < fuel) :
    replaceEqual maxSize find rep fuel str offset =
      some (str.take offset ++ replaceLeftToRight true find rep 0 (str.drop offset)) := by
  have below := maxSize.below
  have positive := List.length_pos_iff.mpr some_
  induction fuel generalizing str offset with
  | zero => omega
  | succ fuel ih =>
    have room := le_of_matchesAt found some_
    have matched : matchesAt (str.drop offset) find 0 = true := by
      rw [matchesAt_drop]
      exact found
    have replaced : replaceLeftToRight true find rep 0 (str.drop offset) =
        rep ++ replaceLeftToRight true find rep 0 (str.drop (offset + rep.length)) := by
      rw [replaceLeftToRight_of_match some_ matched, if_pos rfl, List.drop_drop, same]
    have inside : offset + rep.length ≤ str.length := by omega
    have length := length_overwrite inside
    rw [replaceEqual, stdReplace_of_room room same fits, Option.bind_some, sizeAdd_of_lt (by omega), replaced]
    rcases @stdFind_found_or α _ (str.take offset ++ (rep ++ str.drop (offset + rep.length))) find some_
      (by rw [length, npos]; omega) (offset + rep.length) with ⟨none, absent⟩ | ⟨some', next⟩
    · rw [drop_overwrite inside le_rfl] at absent
      rw [if_pos none, replaceLeftToRight_of_absent absent]
    · have above := next.above
      have within := next.within
      rw [length] at within
      rw [if_neg some', ih (length.trans_le fits) next.matched (by omega), next.take_append, drop_overwrite inside le_rfl,
        take_overwrite inside, List.append_assoc]

/-- The loop for a shorter replacement writes what is replaced from the match on. -/
theorem shrinkLoop_eq (shorter : rep.length < find.length) (fuel : Nat) {str : List α} {writeOffset offset : Nat}
    (fits : str.length ≤ maxSize.value) (found : matchesAt str find offset = true) (behind : writeOffset ≤ offset)
    (enough : str.length - offset < fuel) :
    shrinkLoop maxSize find rep str.length fuel str writeOffset offset =
      some (str.take writeOffset ++ replaceLeftToRight true find rep 0 (str.drop offset)) := by
  have below := maxSize.below
  induction fuel generalizing str writeOffset offset with
  | zero => omega
  | succ fuel ih =>
    have room := le_of_matchesAt found some_
    have inside : writeOffset + rep.length ≤ str.length := by omega
    rw [shrinkLoop, stdReplace_unless inside fits, Option.bind_some, sizeAdd_unless (by omega), sizeAdd_of_lt (by omega),
      replaceLeftToRight_at some_ found, if_pos rfl]
    generalize kept : str.take writeOffset ++ (rep ++ str.drop (writeOffset + rep.length)) = str'
    have length : str'.length = str.length := by rw [← kept, length_overwrite inside]
    have rest {i : Nat} (behind : writeOffset + rep.length ≤ i) : str'.drop i = str.drop i := by
      rw [← kept, drop_overwrite inside behind]
    have start : str'.take (writeOffset + rep.length) = str.take writeOffset ++ rep := by
      rw [← kept, take_overwrite inside]
    generalize write : writeOffset + rep.length = writeOffset' at *
    generalize read : offset + find.length = readOffset at *
    dsimp only
    rw [← rest (by omega), ← List.append_assoc, ← start, ← length]
    have gapLength {next : Nat} (below : next ≤ str'.length) (above : readOffset ≤ next) :
        ((str'.drop readOffset).take (next - readOffset)).length = next - readOffset := by
      rw [List.length_take, List.length_drop]
      omega
    rcases @stdFind_found_or α _ str' find some_ (by rw [length, npos]; omega) readOffset with
      ⟨none, absent⟩ | ⟨_, next⟩
    · have size := gapLength le_rfl (by omega)
      have all : (str'.drop readOffset).take (str'.length - readOffset) = str'.drop readOffset :=
        List.take_of_length_le (by rw [List.length_drop])
      rw [none, Nat.min_eq_right (by rw [npos]; omega), checkedSub_of_le (by omega), Option.bind_some,
        memmove_unless (by omega) (by omega), Option.bind_some, sizeAdd_unless (by omega), if_neg (lt_irrefl _),
        replaceLeftToRight_of_absent absent]
      conv_rhs => rw [← all]
      generalize (str'.drop readOffset).take (str'.length - readOffset) = gap at *
      rw [← size]
      have inside' : writeOffset' + gap.length ≤ str'.length := by omega
      have length' := length_overwrite inside'
      rw [stdResize_of_le (by omega) (by omega), take_overwrite inside']
    · have above := next.above
      have within := next.within
      have positive := List.length_pos_iff.mpr some_
      have matched := next.matched
      have clear := @Found.replace α _ str' find rep true readOffset _ next
      generalize stdFind str' find readOffset = offset' at *
      have size := gapLength (by omega) above
      rw [Nat.min_eq_left (by omega), checkedSub_of_le (by omega), Option.bind_some,
        memmove_unless (by omega) (by omega), Option.bind_some, sizeAdd_unless (by omega), if_pos (by omega), clear]
      generalize (str'.drop readOffset).take (offset' - readOffset) = gap at *
      rw [← size]
      have inside' : writeOffset' + gap.length ≤ str'.length := by omega
      have length' := length_overwrite inside'
      have same := drop_overwrite inside' (i := offset') (by omega)
      have start' := take_overwrite inside'
      generalize str'.take writeOffset' ++ (gap ++ str'.drop (writeOffset' + gap.length)) = str'' at *
      have found' : matchesAt str'' find offset' = true := by
        rw [matchesAt_iff, same, ← matchesAt_iff]
        exact matched
      rw [← length', ih (by omega) found' (by omega) (by omega), start', same, List.append_assoc]

end Forwards

end Libchrome.Base.Strings
