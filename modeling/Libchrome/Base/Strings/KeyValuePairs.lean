import Libchrome.Base.Strings.StringSplit

/-! # Strings of keys and values (`string_split.cc`) -/

namespace Libchrome.Base.Strings
open Library.Collapsing Library.Searching

abbrev StringPair := List (BitVec 8) × List (BitVec 8)

/-- `AppendStringKeyValue`: the item that it appends and what it returns. -/
def appendStringKeyValue (input : StringPiece) (delimiter : BitVec 8) : StringPair × Bool :=
  let endKeyPos := findFirstOfChar input delimiter 0
  if endKeyPos = npos then (([], []), false)
  else
    let key := (substrT input 0 endKeyPos).chars
    let remains := substrT input endKeyPos (input.size - endKeyPos)
    let beginValuePos := findFirstNotOfCharT remains delimiter 0
    if beginValuePos = npos then ((key, []), false)
    else ((key, (substrT remains beginValuePos (remains.size - beginValuePos)).chars), true)

/-- The `std::string` of one character. -/
def single (c : BitVec 8) : StringPiece := ofString [c] (Nat.lt_of_sub_eq_succ rfl)

/-- The pairs, and whether all of them have a key and a value. -/
def splitStringIntoKeyValuePairs (input : StringPiece) (keyValueDelimiter keyValuePairDelimiter : BitVec 8) :
    Option (List StringPair × Bool) :=
  (splitStringPiece stdString .trimWhitespace .splitWantNonempty input (single keyValuePairDelimiter)).map fun pairs =>
    let appended := pairs.map (appendStringKeyValue · keyValueDelimiter)
    (appended.map Prod.fst, appended.all Prod.snd)

variable (input : StringPiece) (delimiter separator : BitVec 8)

/-- The key stands in front of the first delimiter, the value behind the delimiters there. -/
def keyValue (pair : List (BitVec 8)) : StringPair × Bool :=
  let rest := pair.dropWhile (· ≠ delimiter)
  let value := rest.dropWhile (· = delimiter)
  ((if rest = [] then [] else pair.takeWhile (· ≠ delimiter), value), !value.isEmpty)

/-- Where a search ends, the text is cut. -/
theorem firstPassing_cuts {test skip : BitVec 8 → Bool} (skips : ∀ c, skip c = !test c) {text : List (BitVec 8)}
    (short : text.length < npos) :
    text.takeWhile skip = text.take (firstPassing test text 0) ∧
      text.dropWhile skip = text.drop (firstPassing test text 0) ∧
      (firstPassing test text 0 = npos ↔ text.dropWhile skip = []) := by
  rcases firstPassing_cases 0 test (Nat.zero_le text.length) with
    ⟨none, fails⟩ | ⟨front, c, back, rest, fails, passes, found⟩
  · have all : ∀ c ∈ text, skip c = true := by simpa [skips] using fails
    rw [none, List.take_of_length_le short.le, List.drop_of_length_le short.le, List.dropWhile_eq_nil_iff.mpr all]
    exact ⟨List.takeWhile_eq_self_iff.mpr all, rfl, by simp⟩
  · rw [List.drop_zero] at rest
    have all : ∀ c ∈ front, skip c = true := by simpa [skips] using fails
    have stop : ¬skip c = true := by simp [skips, passes]
    rw [found, rest, List.takeWhile_append_of_pos all, List.takeWhile_cons_of_neg stop,
      List.dropWhile_append_of_pos all, List.dropWhile_cons_of_neg stop, Nat.zero_add]
    rw [rest, List.length_append] at short
    simp
    omega

theorem appendStringKeyValue_eq : appendStringKeyValue input delimiter = keyValue delimiter input.chars := by
  have short (piece : StringPiece) : piece.chars.length < npos := by
    have fits := piece.fits
    have inside := piece.inside
    rw [piece.length_chars, npos, BasicStringPiece.size]
    omega
  have charsFrom (piece : StringPiece) (pos : Nat) :
      (substrT piece pos (piece.size - pos)).chars = piece.chars.drop pos := by
    rw [chars_substrT]
    exact List.take_of_length_le (by simp)
  obtain ⟨-, -, -, -, ofChar, -⟩ := templatesAgree input input delimiter 0 0
  obtain ⟨front, back, absent⟩ :=
    @firstPassing_cuts (fun c => [delimiter].contains c) (· ≠ delimiter) (by simp) _ (short input)
  rw [appendStringKeyValue, ofChar, stdFindFirstOf]
  generalize firstPassing (fun c => [delimiter].contains c) input.chars 0 = endKeyPos at front back absent
  generalize remains_eq : substrT input endKeyPos (input.size - endKeyPos) = remains
  obtain ⟨-, -, -, -, -, notOfChar, -⟩ := templatesAgree remains remains delimiter 0 0
  obtain ⟨-, back', absent'⟩ :=
    @firstPassing_cuts (fun c => ! [delimiter].contains c) (· = delimiter) (by simp) _ (short remains)
  rw [← stdFindFirstNotOf, ← notOfChar] at back' absent'
  have rest : remains.chars = input.chars.dropWhile (· ≠ delimiter) := by rw [← remains_eq, charsFrom, back]
  rw [rest] at back' absent'
  simp only [keyValue, chars_substrT input, List.drop_zero, ← front, absent, absent', charsFrom, rest, ← back']
  split_ifs with none empty
  · rw [none]
    rfl
  · rw [empty]
    rfl
  · rw [List.isEmpty_eq_false_iff.mpr empty]
    rfl

def trimBlanks : List (BitVec 8) → List (BitVec 8) := trimEnds fun c => kWhitespaceASCII.contains c

/-- The pieces are trimmed, and those that are empty then are dropped. -/
theorem splitStringIntoKeyValuePairs_eq :
    splitStringIntoKeyValuePairs input delimiter separator =
      let pieces := ((input.chars.splitOn separator).map trimBlanks).filter fun piece => !piece.isEmpty
      let appended := pieces.map (keyValue delimiter)
      some (appended.map Prod.fst, appended.all Prod.snd) := by
  have views := (splitLaws stdString_lawful).views input (single separator) .trimWhitespace .splitWantNonempty
  obtain ⟨findFirstOf, finds, same⟩ := splitWith_searches stdString_lawful input (single separator)
  have equal : (fun c => (single separator).chars.contains c) = (· == separator) := by
    funext c
    exact (List.contains_cons).trans (Bool.or_false _)
  rw [splitString, same, splitStringT_eq stdString_lawful _ _ finds, equal] at views
  obtain ⟨pairs, split, pieces⟩ := Option.map_eq_some_iff.mp views
  have trimmed : pairs.map BasicStringPiece.chars =
      ((input.chars.splitOn separator).map trimBlanks).filter fun piece => !piece.isEmpty := by
    rw [pieces, keepWanted, if_neg (by decide), List.splitOn_eq_splitOnP]
    by_cases empty : input.chars = []
    · rw [if_pos empty, empty]
      rfl
    · rw [if_neg empty]
      rfl
  rw [splitStringIntoKeyValuePairs, split, ← trimmed]
  simp [Function.comp_def, appendStringKeyValue_eq]

/-- A pair as it is written. -/
def pairText (pair : StringPair) : List (BitVec 8) := pair.1 ++ delimiter :: pair.2

/-- A pair that can be told from its text, and the text from its surroundings. -/
structure Legible (pair : StringPair) : Prop where
  key : delimiter ∉ pair.1
  value : ∃ first rest, pair.2 = first :: rest ∧ first ≠ delimiter
  apart : separator ∉ pairText delimiter pair
  trimmed : trimBlanks (pairText delimiter pair) = pairText delimiter pair

variable {input delimiter separator}

theorem Legible.keyValue {pair : StringPair} (legible : Legible delimiter separator pair) :
    keyValue delimiter (pairText delimiter pair) = (pair, true) := by
  obtain ⟨first, rest, value, other⟩ := legible.value
  have differ (c) (inside : c ∈ pair.1) : decide (c ≠ delimiter) = true :=
    decide_eq_true (ne_of_mem_of_not_mem inside legible.key)
  rw [Strings.keyValue, pairText, List.takeWhile_append_of_pos differ, List.dropWhile_append_of_pos differ]
  simp [value, other, Prod.ext_iff]

/-- Pairs that were written and joined are read. -/
theorem splitStringIntoKeyValuePairs_joined {pairs : List StringPair}
    (legible : ∀ pair ∈ pairs, Legible delimiter separator pair)
    (joined : input.chars = joinStringT (pairs.map (pairText delimiter)) [separator]) :
    splitStringIntoKeyValuePairs input delimiter separator = some (pairs, true) := by
  have trimmed : (pairs.map (pairText delimiter)).map trimBlanks = pairs.map (pairText delimiter) :=
    List.map_map.trans (List.map_congr_left fun pair member => (legible pair member).trimmed)
  have pieces : ((input.chars.splitOn separator).map trimBlanks).filter (fun piece => !piece.isEmpty) =
      pairs.map (pairText delimiter) := by
    rw [joined, joinStringT_eq]
    by_cases none : pairs = []
    · rw [none]
      rfl
    · rw [List.splitOn_intercalate _ (List.forall_mem_map.mpr fun pair member => (legible pair member).apart)
        (by simpa using none), trimmed]
      exact List.filter_eq_self.mpr (List.forall_mem_map.mpr fun pair _ => by simp [pairText])
  have read : (pairs.map (pairText delimiter)).map (keyValue delimiter) = pairs.map fun pair => (pair, true) :=
    List.map_map.trans (List.map_congr_left fun pair member => (legible pair member).keyValue)
  rw [splitStringIntoKeyValuePairs_eq, pieces]
  simp [read, Function.comp_def]

/-- `k=v=w` and `=x`. -/
theorem splitStringIntoKeyValuePairs_joined_two :
    splitStringIntoKeyValuePairs (ofString [0x6b, 0x3d, 0x76, 0x3d, 0x77, 0x26, 0x3d, 0x78] (by decide)) 0x3d 0x26 =
      some ([([0x6b], [0x76, 0x3d, 0x77]), ([], [0x78])], true) :=
  splitStringIntoKeyValuePairs_joined
    (List.forall_mem_cons.mpr ⟨⟨by decide, ⟨_, _, rfl, by decide⟩, by decide, by decide⟩,
      List.forall_mem_singleton.mpr ⟨by decide, ⟨_, _, rfl, by decide⟩, by decide, by decide⟩⟩) rfl

end Libchrome.Base.Strings
