import Libchrome.Library.Searching
import Mathlib.Data.BitVec

/-! The searches of `StringPiece` and `StringPiece16` (`string_piece.cc`), and those of `std::basic_string`. -/

namespace Libchrome.Base.Strings
open Library.Searching

/-! ### `std::basic_string` -/

/-- `npos`, the highest `size_t`. -/
def npos : Nat := 2 ^ 64 - 1

section StdString
variable {α : Type} [DecidableEq α]

/-- `find`: the lowest position from `pos` on at which `s` lies within the text. -/
def stdFind (text s : List α) (pos : Nat) : Nat :=
  (lowest (fun i => i + s.length ≤ text.length && matchesAt text s i) pos (text.length + 1 - pos)).getD npos

/-- `rfind`: the highest position up to `pos` at which `s` lies within the text. -/
def stdRfind (text s : List α) (pos : Nat) : Nat :=
  (highest (fun i => i ≤ pos && (i + s.length ≤ text.length && matchesAt text s i)) (text.length + 1)).getD npos

/-- The lowest position from `pos` on with a character that passes. -/
def firstPassing (test : α → Bool) (text : List α) (pos : Nat) : Nat :=
  (lowest (fun i => text[i]?.any test) pos (text.length - pos)).getD npos

/-- The highest position up to `pos` with a character that passes. -/
def lastPassing (test : α → Bool) (text : List α) (pos : Nat) : Nat :=
  (highest (fun i => i ≤ pos && text[i]?.any test) text.length).getD npos

def stdFindFirstOf (text s : List α) (pos : Nat) : Nat := firstPassing (fun c => s.contains c) text pos

def stdFindFirstNotOf (text s : List α) (pos : Nat) : Nat := firstPassing (fun c => !s.contains c) text pos

def stdFindLastOf (text s : List α) (pos : Nat) : Nat := lastPassing (fun c => s.contains c) text pos

def stdFindLastNotOf (text s : List α) (pos : Nat) : Nat := lastPassing (fun c => !s.contains c) text pos

end StdString

/-- `substr`; none when it throws. -/
def stdSubstr {α : Type} (text : List α) (pos n : Nat) : Option (List α) :=
  if text.length < pos then none else some ((text.drop pos).take n)

/-! ### The algorithms of the standard library that the pieces use, on ranges of a text -/

section Algorithms
variable {α : Type} [DecidableEq α]

/-- `std::search` from `first` to the end. -/
def stdSearch (text s : List α) (first : Nat) : Nat :=
  if s = [] then first else (lowest (matchesAt text s) first (text.length - first)).getD text.length

/-- `std::find` from `first` to the end. -/
def stdFindValue (text : List α) (c : α) (first : Nat) : Nat :=
  (lowest (fun i => text[i]? = some c) first (text.length - first)).getD text.length

/-- `std::find_end` from the start to `last`. -/
def stdFindEnd (text s : List α) (last : Nat) : Nat :=
  if s = [] then last else (highest (fun i => i + s.length ≤ last && matchesAt text s i) last).getD last

/-- `std::find_first_of` from `first` to the end; none when `first` is behind the end, and it runs on from there. -/
def stdFindFirstOfRange (text s : List α) (first : Nat) : Option Nat :=
  if text.length < first then none
  else some ((lowest (fun i => text[i]?.any s.contains) first (text.length - first)).getD text.length)

end Algorithms

/-! ### Pieces -/

/-- `BasicStringPiece`: the `length` characters from `ptr` on of a buffer in memory. -/
structure BasicStringPiece (α : Type) where
  buffer : List α
  ptr : Nat
  length : Nat
  inside : ptr + length ≤ buffer.length
  fits : buffer.length < 2 ^ 63

abbrev StringPiece := BasicStringPiece (BitVec 8)

abbrev StringPiece16 := BasicStringPiece (BitVec 16)

namespace BasicStringPiece
variable {α : Type}

/-- The characters that a piece denotes. -/
def chars (self : BasicStringPiece α) : List α := (self.buffer.drop self.ptr).take self.length

def size (self : BasicStringPiece α) : Nat := self.length

def empty (self : BasicStringPiece α) : Bool := self.length = 0

@[simp] theorem length_chars (self : BasicStringPiece α) : self.chars.length = self.size := by
  have inside := self.inside
  rw [chars, List.length_take, List.length_drop, size]
  omega

theorem chars_eq_nil_iff (self : BasicStringPiece α) : self.chars = [] ↔ self.size = 0 := by
  rw [← List.length_eq_zero_iff, length_chars]

end BasicStringPiece

/-- The piece of a whole string. -/
def ofString {α : Type} (text : List α) (fits : text.length < 2 ^ 63) : BasicStringPiece α :=
  ⟨text, 0, text.length, (Nat.zero_add _).le, fits⟩

@[simp] theorem chars_ofString {α : Type} (text : List α) (fits : text.length < 2 ^ 63) : (ofString text fits).chars = text :=
  List.take_length

section Operations
variable {α : Type} [DecidableEq α] (self s : BasicStringPiece α) (c : α) (pos : Nat)

/-- `for (size_t i = pos; i < size; ++i)`, which returns the first index that passes. -/
def scanUp (test : α → Bool) : Nat := (lowest (fun i => self.chars[i]?.any test) pos (self.size - pos)).getD npos

/-- `for (size_t i = std::min(pos, size - 1); ; --i)`, which returns the first index that passes, and stops at 0. -/
def scanDown (test : α → Bool) : Nat :=
  (highest (fun i => self.chars[i]?.any test) (min pos (self.size - 1) + 1)).getD npos

def findT : Nat :=
  if self.size < pos then npos
  else
    let xpos := stdSearch self.chars s.chars pos
    if xpos + s.size ≤ self.size then xpos else npos

/-- `findT` of a character. -/
def findCharT : Nat :=
  if self.size ≤ pos then npos
  else
    let result := stdFindValue self.chars c pos
    if result ≠ self.size then result else npos

def rfindT : Nat :=
  if self.size < s.size then npos
  else if s.empty then min self.size pos
  else
    let last := min (self.size - s.size) pos + s.size
    let result := stdFindEnd self.chars s.chars last
    if result ≠ last then result else npos

/-- `rfindT` of a character. -/
def rfindCharT : Nat := if self.size = 0 then npos else scanDown self pos (fun d => d = c)

/-- `find_first_not_ofT`, of a character. -/
def findFirstNotOfCharT : Nat := if self.size = 0 then npos else scanUp self pos (fun d => d ≠ c)

/-- `find_last_not_ofT`, of a character. -/
def findLastNotOfCharT : Nat := if self.size = 0 then npos else scanDown self pos (fun d => d ≠ c)

/-- `find_first_of`, of a character. -/
def findFirstOfChar : Nat := findCharT self c pos

/-- `find_last_of`, of a character. -/
def findLastOfChar : Nat := rfindCharT self c pos

/-- `substrT`. -/
def substrT (self : BasicStringPiece α) (pos n : Nat) : BasicStringPiece α :=
  let pos := if self.size < pos then self.size else pos
  let n := if self.size - pos < n then self.size - pos else n
  { self with
    ptr := self.ptr + pos
    length := n
    inside := by
      have inside := self.inside
      have small : n ≤ self.size - pos := by dsimp only [n]; split <;> omega
      have within : pos ≤ self.size := by dsimp only [pos]; split <;> omega
      change self.ptr + pos + n ≤ _
      rw [BasicStringPiece.size] at small within
      omega }

end Operations

/-! ### The versions of 8 bits, with a lookup table -/

/-- `BuildLookupTable`. -/
def buildLookupTable (charactersWanted : StringPiece) : List Bool :=
  charactersWanted.chars.foldl (fun table c => table.set c.toNat true) (List.replicate 256 false)

def lookUp (table : List Bool) (c : BitVec 8) : Bool := table.getD c.toNat false

section Bytes
variable (self s : StringPiece) (pos : Nat)

def findFirstOf8 : Nat :=
  if self.size = 0 ∨ s.size = 0 then npos
  else
    match s.chars with
    | [c] => findCharT self c pos
    | _ => scanUp self pos (lookUp (buildLookupTable s))

def findFirstNotOf8 : Nat :=
  if self.size = 0 then npos
  else if s.size = 0 then 0
  else
    match s.chars with
    | [c] => findFirstNotOfCharT self c pos
    | _ => scanUp self pos (fun c => !lookUp (buildLookupTable s) c)

def findLastOf8 : Nat :=
  if self.size = 0 ∨ s.size = 0 then npos
  else
    match s.chars with
    | [c] => rfindCharT self c pos
    | _ => scanDown self pos (lookUp (buildLookupTable s))

def findLastNotOf8 : Nat :=
  if self.size = 0 then npos
  else if s.size = 0 then min pos (self.size - 1)
  else
    match s.chars with
    | [c] => findLastNotOfCharT self c pos
    | _ => scanDown self pos (fun c => !lookUp (buildLookupTable s) c)

end Bytes

/-! ### The brute force versions of 16 bits -/

section Units
variable (self s : StringPiece16) (pos : Nat)

/-- `find_first_of`; none when it starts behind the end of the piece. -/
def findFirstOf16 : Option Nat :=
  (stdFindFirstOfRange self.chars s.chars pos).map fun found => if found = self.size then npos else found

def findFirstNotOf16 : Nat := if self.size = 0 then npos else scanUp self pos (fun c => !s.chars.any (fun d => c = d))

def findLastOf16 : Nat := if self.size = 0 then npos else scanDown self pos (fun c => s.chars.any (fun d => c = d))

def findLastNotOf16 : Nat := if self.size = 0 then npos else scanDown self pos (fun c => !s.chars.any (fun d => c = d))

end Units

/-! The searches of the pieces return what `std::basic_string` returns. -/

/-! ### The loops agree with the standard -/

section Loops
variable {α : Type} (self : BasicStringPiece α) (pos : Nat) (test : α → Bool)

theorem scanUp_eq : scanUp self pos test = firstPassing test self.chars pos := by
  rw [scanUp, firstPassing, BasicStringPiece.length_chars]

theorem scanDown_eq (some : self.size ≠ 0) : scanDown self pos test = lastPassing test self.chars pos := by
  rw [scanDown, lastPassing, BasicStringPiece.length_chars]
  congr 1
  apply highest_congr
  intro i
  rw [Bool.and_eq_true, decide_eq_true_iff]
  constructor
  · rintro ⟨below, passes⟩
    exact ⟨by omega, by omega, passes⟩
  · rintro ⟨below, within, passes⟩
    exact ⟨by omega, passes⟩

theorem firstPassing_of_empty (none : self.size = 0) : firstPassing test self.chars pos = npos := by
  rw [(self.chars_eq_nil_iff).mpr none, firstPassing, List.length_nil, Nat.zero_sub]
  rfl

theorem lastPassing_of_empty (none : self.size = 0) : lastPassing test self.chars pos = npos := by
  rw [(self.chars_eq_nil_iff).mpr none]
  rfl

variable {text : List α}

theorem firstPassing_of_fails (fails : ∀ c, test c = false) : firstPassing test text pos = npos := by
  have none : lowest (fun i => text[i]?.any test) pos (text.length - pos) = none := by
    rw [lowest_eq_none_iff]
    intro i _ _
    cases text[i]? with
    | none => rfl
    | some c => exact fails c
  rw [firstPassing, none]
  rfl

theorem lastPassing_of_fails (fails : ∀ c, test c = false) : lastPassing test text pos = npos := by
  have none : highest (fun i => i ≤ pos && text[i]?.any test) text.length = none := by
    rw [highest_eq_none_iff]
    intro i _
    cases text[i]? with
    | none => exact Bool.and_false _
    | some c => exact (congrArg _ (fails c)).trans (Bool.and_false _)
  rw [lastPassing, none]
  rfl

theorem firstPassing_of_passes (passes : ∀ c, test c = true) :
    firstPassing test text pos = if pos < text.length then pos else npos := by
  rw [firstPassing]
  split
  next inside =>
    have here : lowest (fun i => text[i]?.any test) pos (text.length - pos) = some pos := by
      rw [lowest_eq_some_iff, List.getElem?_eq_getElem inside]
      exact ⟨le_rfl, by omega, passes _, by omega⟩
    rw [here, Option.getD_some]
  next behind =>
    rw [Nat.sub_eq_zero_of_le (not_lt.mp behind)]
    rfl

theorem lastPassing_of_passes (some_ : text.length ≠ 0) (passes : ∀ c, test c = true) :
    lastPassing test text pos = min pos (text.length - 1) := by
  have inside : min pos (text.length - 1) < text.length := by omega
  have here : highest (fun i => i ≤ pos && text[i]?.any test) text.length = some (min pos (text.length - 1)) := by
    rw [highest_eq_some_iff, List.getElem?_eq_getElem inside, Bool.and_eq_true, decide_eq_true_iff]
    refine ⟨inside, ⟨by omega, passes _⟩, fun j after before => ?_⟩
    rw [decide_eq_false (show ¬ j ≤ pos by omega), Bool.false_and]
  rw [lastPassing, here, Option.getD_some]

/-- A search upwards finds the first character of the rest that passes, if there is one. -/
theorem firstPassing_cases (inside : pos ≤ text.length) :
    (firstPassing test text pos = npos ∧ ∀ c ∈ text.drop pos, test c = false) ∨
      ∃ front c back, text.drop pos = front ++ c :: back ∧ (∀ d ∈ front, test d = false) ∧ test c = true ∧
        firstPassing test text pos = pos + front.length := by
  rw [firstPassing]
  cases found : lowest (fun i => text[i]?.any test) pos (text.length - pos) with
  | none =>
    left
    refine ⟨rfl, fun c member => ?_⟩
    obtain ⟨k, within, rfl⟩ := List.getElem_of_mem member
    rw [List.length_drop] at within
    have fails := lowest_eq_none_iff.mp found (pos + k) (by omega) (by omega)
    rw [List.getElem?_eq_getElem (by omega)] at fails
    rwa [List.getElem_drop]
  | some i =>
    right
    obtain ⟨above, below, passes, first⟩ := lowest_eq_some_iff.mp found
    have here : i < text.length := by omega
    rw [List.getElem?_eq_getElem here] at passes
    refine ⟨(text.drop pos).take (i - pos), text[i], text.drop (i + 1), ?_, fun d member => ?_, passes, ?_⟩
    · rw [← List.drop_eq_getElem_cons here]
      conv_lhs => rw [← List.take_append_drop (i - pos) (text.drop pos), List.drop_drop, Nat.add_sub_cancel' above]
    · obtain ⟨k, within, rfl⟩ := List.getElem_of_mem member
      rw [List.length_take, List.length_drop] at within
      have fails := first (pos + k) (by omega) (by omega)
      rw [List.getElem?_eq_getElem (by omega)] at fails
      rwa [List.getElem_take, List.getElem_drop]
    · rw [Option.getD_some, List.length_take, List.length_drop]
      omega

theorem lastPassing_cases (short : text.length ≤ npos) :
    (lastPassing test text npos = npos ∧ ∀ c ∈ text, test c = false) ∨
      ∃ front c back, text = front ++ c :: back ∧ (∀ d ∈ back, test d = false) ∧ test c = true ∧
        lastPassing test text npos = front.length := by
  rw [lastPassing]
  cases found : highest (fun i => i ≤ npos && text[i]?.any test) text.length with
  | none =>
    left
    refine ⟨rfl, fun c member => ?_⟩
    obtain ⟨k, within, rfl⟩ := List.getElem_of_mem member
    have fails := highest_eq_none_iff.mp found k within
    rwa [List.getElem?_eq_getElem within, decide_eq_true (within.le.trans short), Bool.true_and] at fails
  | some i =>
    right
    obtain ⟨here, passes, last⟩ := highest_eq_some_iff.mp found
    rw [List.getElem?_eq_getElem here, decide_eq_true (here.le.trans short), Bool.true_and] at passes
    refine ⟨text.take i, text[i], text.drop (i + 1), ?_, fun d member => ?_, passes, ?_⟩
    · rw [← List.drop_eq_getElem_cons here, List.take_append_drop]
    · obtain ⟨k, within, rfl⟩ := List.getElem_of_mem member
      rw [List.length_drop] at within
      have inside : i + 1 + k < text.length := by omega
      have fails := last (i + 1 + k) (by omega) inside
      rw [List.getElem?_eq_getElem inside, decide_eq_true (inside.le.trans short), Bool.true_and] at fails
      rwa [List.getElem_drop]
    · rw [Option.getD_some, List.length_take]
      omega

theorem guarded_scanUp : (if self.size = 0 then npos else scanUp self pos test) = firstPassing test self.chars pos := by
  split
  next none => exact (firstPassing_of_empty self pos test none).symm
  next => exact scanUp_eq self pos test

theorem guarded_scanDown : (if self.size = 0 then npos else scanDown self pos test) = lastPassing test self.chars pos := by
  split
  next none => exact (lastPassing_of_empty self pos test none).symm
  next some => exact scanDown_eq self pos test some

end Loops

section Texts
variable {α : Type} [DecidableEq α] (self s : BasicStringPiece α) (c : α) (pos : Nat)

theorem matchesAt_singleton (text : List α) (i : Nat) : matchesAt text [c] i = text[i]?.any (fun d => d = c) := by
  rw [matchesAt, List.length_singleton]
  cases found : text[i]? with
  | none =>
    rw [List.drop_eq_nil_of_le (List.getElem?_eq_none_iff.mp found)]
    rfl
  | some d =>
    obtain ⟨inside, same⟩ := List.getElem?_eq_some_iff.mp found
    rw [List.drop_eq_getElem_cons inside, same, List.take_succ_cons, List.take_zero, Option.any_some]
    rw [decide_eq_decide, List.cons.injEq]
    exact and_iff_left rfl

/-- Searching a text of one character is searching the character. -/
theorem stdFind_singleton (text : List α) : stdFind text [c] pos = firstPassing (fun d => d = c) text pos := by
  rw [stdFind, firstPassing]
  congr 1
  apply lowest_congr
  intro i
  rw [Bool.and_eq_true, decide_eq_true_iff, matchesAt_singleton, List.length_singleton]
  constructor
  · rintro ⟨above, _, room, found⟩
    exact ⟨above, by omega, found⟩
  · rintro ⟨above, below, found⟩
    exact ⟨above, by omega, by omega, found⟩

theorem stdRfind_singleton (text : List α) : stdRfind text [c] pos = lastPassing (fun d => d = c) text pos := by
  rw [stdRfind, lastPassing]
  congr 1
  apply highest_congr
  intro i
  rw [Bool.and_eq_true, Bool.and_eq_true, Bool.and_eq_true, decide_eq_true_iff, decide_eq_true_iff, matchesAt_singleton,
    List.length_singleton]
  constructor
  · rintro ⟨_, within, room, found⟩
    exact ⟨room, within, found⟩
  · rintro ⟨below, within, found⟩
    exact ⟨by omega, within, below, found⟩

/-- A search finds the first occurrence in the rest of the text, if there is one. -/
theorem stdFind_cases {text s : List α} (some_ : s ≠ []) (pos : Nat) :
    (stdFind text s pos = npos ∧ ¬ s <:+: text.drop pos) ∨
      ∃ front back, text.drop pos = front ++ (s ++ back) ∧ stdFind text s pos = pos + front.length ∧
        ∀ i < front.length, matchesAt (text.drop pos) s i = false := by
  have positive := List.length_pos_iff.mpr some_
  rw [stdFind]
  cases found : lowest (fun i => i + s.length ≤ text.length && matchesAt text s i) pos (text.length + 1 - pos) with
  | none =>
    left
    refine ⟨rfl, fun within => ?_⟩
    obtain ⟨i, room, matched⟩ := matchesAt_of_infix within
    rw [List.length_drop] at room
    have fails := lowest_eq_none_iff.mp found (pos + i) (by omega) (by omega)
    rw [← matchesAt_drop, matched, decide_eq_true (show pos + i + s.length ≤ text.length by omega)] at fails
    cases fails
  | some x =>
    right
    obtain ⟨above, below, passes, first⟩ := lowest_eq_some_iff.mp found
    rw [Bool.and_eq_true, decide_eq_true_iff] at passes
    obtain ⟨back, rest⟩ := matchesAt_iff.mp passes.2
    have front : ((text.drop pos).take (x - pos)).length = x - pos := by
      rw [List.length_take, List.length_drop]
      omega
    refine ⟨(text.drop pos).take (x - pos), back, ?_, ?_, fun i before => ?_⟩
    · rw [rest]
      conv_lhs => rw [← List.take_append_drop (x - pos) (text.drop pos), List.drop_drop, Nat.add_sub_cancel' above]
    · rw [front, Option.getD_some, Nat.add_sub_cancel' above]
    · rw [front] at before
      have fails := first (pos + i) (by omega) (by omega)
      rwa [decide_eq_true (show pos + i + s.length ≤ text.length by omega), Bool.true_and, ← matchesAt_drop] at fails

theorem findT_eq : findT self s pos = stdFind self.chars s.chars pos := by
  rw [findT, stdFind, stdSearch, BasicStringPiece.length_chars, BasicStringPiece.length_chars]
  have lengths := s.length_chars
  split
  next behind =>
    rw [Nat.sub_eq_zero_of_le behind]
    rfl
  next inside =>
    dsimp only
    by_cases none : s.chars = []
    · have here : lowest (fun i => i + s.size ≤ self.size && matchesAt self.chars s.chars i) pos (self.size + 1 - pos) = some pos := by
        rw [← lengths, none, lowest_eq_some_iff]
        refine ⟨le_rfl, by omega, ?_, by omega⟩
        rw [Bool.and_eq_true, decide_eq_true_iff, matchesAt_iff]
        exact ⟨not_lt.mp inside, List.nil_prefix⟩
      rw [here, if_pos none, ← lengths, none, List.length_nil, Nat.add_zero, if_pos (not_lt.mp inside), Option.getD_some]
    · have positive := List.length_pos_iff.mpr none
      have same : lowest (matchesAt self.chars s.chars) pos (self.size - pos) =
          lowest (fun i => i + s.size ≤ self.size && matchesAt self.chars s.chars i) pos (self.size + 1 - pos) := by
        apply lowest_congr
        intro i
        rw [Bool.and_eq_true, decide_eq_true_iff]
        constructor
        · rintro ⟨above, _, found⟩
          have room := le_of_matchesAt found none
          rw [lengths, BasicStringPiece.length_chars] at room
          exact ⟨above, by omega, room, found⟩
        · rintro ⟨above, _, room, found⟩
          exact ⟨above, by omega, found⟩
      rw [if_neg none, same]
      cases found : lowest (fun i => i + s.size ≤ self.size && matchesAt self.chars s.chars i) pos (self.size + 1 - pos) with
      | none =>
        rw [Option.getD_none, if_neg (by omega)]
        rfl
      | some i =>
        have passes := (lowest_eq_some_iff.mp found).2.2.1
        rw [Bool.and_eq_true, decide_eq_true_iff] at passes
        rw [Option.getD_some, if_pos passes.1, Option.getD_some]

theorem findCharT_eq : findCharT self c pos = stdFind self.chars [c] pos := by
  rw [findCharT, stdFind_singleton, firstPassing, stdFindValue, BasicStringPiece.length_chars]
  split
  next behind =>
    rw [Nat.sub_eq_zero_of_le behind]
    rfl
  next inside =>
    dsimp only
    have same : lowest (fun i => self.chars[i]? = some c) pos (self.size - pos) =
        lowest (fun i => self.chars[i]?.any fun d => d = c) pos (self.size - pos) := by
      congr 1
      funext i
      cases self.chars[i]? <;> simp
    rw [same]
    cases found : lowest (fun i => self.chars[i]?.any fun d => d = c) pos (self.size - pos) with
    | none => rw [Option.getD_none, if_neg (not_not.mpr rfl), Option.getD_none]
    | some i =>
      have below := (lowest_eq_some_iff.mp found).2.1
      rw [Option.getD_some, if_pos (by omega), Option.getD_some]

theorem rfindT_eq : rfindT self s pos = stdRfind self.chars s.chars pos := by
  rw [rfindT, stdRfind, BasicStringPiece.length_chars, BasicStringPiece.length_chars]
  have lengths := s.length_chars
  split
  next shorter =>
    have none : highest (fun i => i ≤ pos && (i + s.size ≤ self.size && matchesAt self.chars s.chars i)) (self.size + 1) = none := by
      rw [highest_eq_none_iff]
      intro i _
      rw [decide_eq_false (show ¬ i + s.size ≤ self.size by omega), Bool.false_and, Bool.and_false]
    rw [none]
    rfl
  next fits =>
    by_cases none : s.chars = []
    · have here : highest (fun i => i ≤ pos && (i + s.size ≤ self.size && matchesAt self.chars s.chars i)) (self.size + 1) =
          some (min self.size pos) := by
        rw [← lengths, none, List.length_nil, highest_eq_some_iff]
        refine ⟨by omega, ?_, fun j after before => ?_⟩
        · rw [Bool.and_eq_true, Bool.and_eq_true, decide_eq_true_iff, decide_eq_true_iff, matchesAt_iff]
          exact ⟨by omega, by omega, List.nil_prefix⟩
        · rw [decide_eq_false (show ¬ j ≤ pos by omega), Bool.false_and]
      have isEmpty : s.empty = true := by
        rw [BasicStringPiece.empty, decide_eq_true_iff]
        exact (s.chars_eq_nil_iff).mp none
      rw [here, if_pos isEmpty, Option.getD_some]
    · have positive := List.length_pos_iff.mpr none
      have isNotEmpty : ¬ s.empty = true := by
        rw [BasicStringPiece.empty, decide_eq_true_iff]
        exact fun zero => none ((s.chars_eq_nil_iff).mpr zero)
      have same : highest (fun i => i + s.size ≤ min (self.size - s.size) pos + s.size && matchesAt self.chars s.chars i)
          (min (self.size - s.size) pos + s.size) =
          highest (fun i => i ≤ pos && (i + s.size ≤ self.size && matchesAt self.chars s.chars i)) (self.size + 1) := by
        apply highest_congr
        intro i
        rw [Bool.and_eq_true, Bool.and_eq_true, Bool.and_eq_true, decide_eq_true_iff, decide_eq_true_iff, decide_eq_true_iff]
        constructor
        · rintro ⟨_, room, found⟩
          exact ⟨by omega, by omega, by omega, found⟩
        · rintro ⟨_, within, room, found⟩
          exact ⟨by omega, by omega, found⟩
      rw [if_neg isNotEmpty]
      dsimp only
      rw [stdFindEnd, if_neg none, lengths, same]
      cases found : highest (fun i => i ≤ pos && (i + s.size ≤ self.size && matchesAt self.chars s.chars i)) (self.size + 1) with
      | none => rw [Option.getD_none, if_neg (not_not.mpr rfl), Option.getD_none]
      | some i =>
        have passes := (highest_eq_some_iff.mp found).2.1
        rw [Bool.and_eq_true, Bool.and_eq_true, decide_eq_true_iff, decide_eq_true_iff] at passes
        rw [Option.getD_some, if_pos (by omega), Option.getD_some]

theorem rfindCharT_eq : rfindCharT self c pos = stdRfind self.chars [c] pos := by
  rw [rfindCharT, stdRfind_singleton]
  exact guarded_scanDown self pos _

end Texts

section Sets
variable (self s : StringPiece) (self16 s16 : StringPiece16) (pos : Nat)

theorem lookUp_buildLookupTable (c : BitVec 8) : lookUp (buildLookupTable s) c = s.chars.contains c := by
  have step (wanted : List (BitVec 8)) (table : List Bool) (whole : table.length = 256) :
      (wanted.foldl (fun table c => table.set c.toNat true) table).getD c.toNat false =
        (wanted.contains c || table.getD c.toNat false) := by
    induction wanted generalizing table with
    | nil => rfl
    | cons d wanted ih =>
      rw [List.foldl_cons, ih _ (by rw [List.length_set, whole]), List.contains_cons, List.getD_eq_getElem?_getD,
        List.getD_eq_getElem?_getD, List.getElem?_set]
      by_cases same : d = c
      · subst same
        rw [if_pos rfl, if_pos (by rw [whole]; exact d.isLt), BEq.rfl, Bool.true_or, Bool.true_or]
        exact Bool.or_true _
      · have apart : ¬ d.toNat = c.toNat := fun equal => same (BitVec.eq_of_toNat_eq equal)
        rw [if_neg apart, beq_false_of_ne (Ne.symm same), Bool.false_or]
  have clear : (List.replicate 256 false).getD c.toNat false = false := by
    rw [List.getD_eq_getElem?_getD, List.getElem?_replicate, if_pos c.isLt, Option.getD_some]
  rw [lookUp, buildLookupTable, step _ _ List.length_replicate, clear, Bool.or_false]

/-- What the versions of 8 bits do with a set that is not empty. -/
theorem single_or_table {scan : (BitVec 8 → Bool) → Nat} {single : BitVec 8 → Nat} (keep : Bool → Bool)
    (agrees : ∀ c, single c = scan (fun d => keep (d = c))) :
    (match s.chars with
      | [c] => single c
      | _ => scan (fun c => keep (lookUp (buildLookupTable s) c))) = scan (fun c => keep (s.chars.contains c)) := by
  have table : (fun c => keep (lookUp (buildLookupTable s) c)) = fun c => keep (s.chars.contains c) := by
    funext c
    rw [lookUp_buildLookupTable]
  split
  next c only =>
    rw [agrees, only]
    congr 1
    funext d
    rw [List.contains_cons, List.contains_nil, Bool.or_false]
    rfl
  next => rw [table]

theorem contains_nil (none : s.size = 0) (c : BitVec 8) : s.chars.contains c = false := by
  rw [(s.chars_eq_nil_iff).mpr none, List.contains_nil]

theorem findFirstOf8_eq : findFirstOf8 self s pos = stdFindFirstOf self.chars s.chars pos := by
  have single (c : BitVec 8) : findCharT self c pos = scanUp self pos (fun d => id (decide (d = c))) := by
    rw [findCharT_eq, stdFind_singleton, scanUp_eq]
    rfl
  rw [findFirstOf8, stdFindFirstOf]
  split
  next none =>
    rcases none with none | none
    · exact (firstPassing_of_empty self pos _ none).symm
    · exact (firstPassing_of_fails pos _ (contains_nil s none)).symm
  next => exact (single_or_table s id single).trans (scanUp_eq self pos _)

/-- `find_first_not_of` of 8 bits, except for the position it returns for the empty set. -/
theorem findFirstNotOf8_eq (wanted : self.size = 0 ∨ s.size ≠ 0 ∨ pos = 0) :
    findFirstNotOf8 self s pos = stdFindFirstNotOf self.chars s.chars pos := by
  have single (c : BitVec 8) : findFirstNotOfCharT self c pos = firstPassing (fun d => !decide (d = c)) self.chars pos := by
    rw [findFirstNotOfCharT, guarded_scanUp]
    congr 1
    funext d
    exact decide_not
  rw [findFirstNotOf8, stdFindFirstNotOf]
  split
  next none => exact (firstPassing_of_empty self pos _ none).symm
  next some =>
    split
    next none =>
      have start : pos = 0 := (wanted.resolve_left some).resolve_left (not_not.mpr none)
      rw [firstPassing_of_passes _ _ fun c => by rw [contains_nil s none]; rfl, self.length_chars, start,
        if_pos (Nat.pos_of_ne_zero some)]
    next =>
      have scan := single_or_table s Bool.not fun c => (single c).trans (scanUp_eq self pos _).symm
      exact scan.trans (scanUp_eq self pos _)

theorem findLastOf8_eq : findLastOf8 self s pos = stdFindLastOf self.chars s.chars pos := by
  rw [findLastOf8, stdFindLastOf]
  split
  next none =>
    rcases none with none | none
    · exact (lastPassing_of_empty self pos _ none).symm
    · exact (lastPassing_of_fails pos _ (contains_nil s none)).symm
  next some =>
    rw [not_or] at some
    have single (c : BitVec 8) : rfindCharT self c pos = scanDown self pos (fun d => id (decide (d = c))) := by
      rw [rfindCharT, if_neg some.1]
      rfl
    exact (single_or_table s id single).trans (scanDown_eq self pos _ some.1)

theorem findLastNotOf8_eq : findLastNotOf8 self s pos = stdFindLastNotOf self.chars s.chars pos := by
  rw [findLastNotOf8, stdFindLastNotOf]
  split
  next none => exact (lastPassing_of_empty self pos _ none).symm
  next some =>
    split
    next none =>
      rw [lastPassing_of_passes _ _ (by rwa [self.length_chars]) fun c => by rw [contains_nil s none]; rfl,
        self.length_chars]
    next =>
      have single (c : BitVec 8) : findLastNotOfCharT self c pos = scanDown self pos (fun d => !decide (d = c)) := by
        rw [findLastNotOfCharT, if_neg some]
        congr 1
        funext d
        exact decide_not
      exact (single_or_table s Bool.not single).trans (scanDown_eq self pos _ some)

theorem any_eq_contains (text : List (BitVec 16)) (c : BitVec 16) : text.any (fun d => c = d) = text.contains c := by
  rw [List.contains_eq_any_beq]
  rfl

/-- `find_first_of` of 16 bits, up to the end of the piece. -/
theorem findFirstOf16_eq (inside : pos ≤ self16.size) :
    findFirstOf16 self16 s16 pos = some (stdFindFirstOf self16.chars s16.chars pos) := by
  rw [findFirstOf16, stdFindFirstOfRange, stdFindFirstOf, firstPassing, self16.length_chars,
    if_neg (not_lt.mpr inside), Option.map_some]
  congr 1
  cases found : lowest (fun i => self16.chars[i]?.any s16.chars.contains) pos (self16.size - pos) with
  | none => rw [Option.getD_none, if_pos rfl, Option.getD_none]
  | some i =>
    have below := (lowest_eq_some_iff.mp found).2.1
    rw [Option.getD_some, if_neg (by omega), Option.getD_some]

theorem findFirstNotOf16_eq : findFirstNotOf16 self16 s16 pos = stdFindFirstNotOf self16.chars s16.chars pos := by
  rw [findFirstNotOf16, guarded_scanUp, stdFindFirstNotOf]
  congr 1
  funext c
  rw [any_eq_contains]

theorem findLastOf16_eq : findLastOf16 self16 s16 pos = stdFindLastOf self16.chars s16.chars pos := by
  rw [findLastOf16, guarded_scanDown, stdFindLastOf]
  congr 1
  funext c
  rw [any_eq_contains]

theorem findLastNotOf16_eq : findLastNotOf16 self16 s16 pos = stdFindLastNotOf self16.chars s16.chars pos := by
  rw [findLastNotOf16, guarded_scanDown, stdFindLastNotOf]
  congr 1
  funext c
  rw [any_eq_contains]

end Sets

/-- A part of a piece is the part of its text, and it is empty behind the end. -/
theorem chars_substrT {α : Type} (self : BasicStringPiece α) (pos n : Nat) :
    (substrT self pos n).chars = (self.chars.drop pos).take n := by
  have lengths := self.length_chars
  have view : (substrT self pos n).chars = (self.buffer.drop (self.ptr + min pos self.size)).take (min n (self.size - pos)) := by
    rw [BasicStringPiece.chars, substrT]
    dsimp only
    congr 1
    · split_ifs <;> omega
    · congr 1
      split_ifs <;> omega
  rw [view, BasicStringPiece.chars, List.drop_take, List.take_take, List.drop_drop, ← BasicStringPiece.size]
  by_cases inside : pos ≤ self.size
  · rw [Nat.min_eq_left inside]
  · rw [Nat.sub_eq_zero_of_le (not_le.mp inside).le, Nat.min_zero, List.take_zero, List.take_zero]

/-! ### Both widths agree -/

section Widths
variable {α β : Type} {f : α → β}

theorem firstPassing_map (test : β → Bool) (text : List α) (pos : Nat) :
    firstPassing test (text.map f) pos = firstPassing (fun c => test (f c)) text pos := by
  rw [firstPassing, firstPassing, List.length_map]
  congr 2
  funext i
  rw [List.getElem?_map, Option.any_map]

theorem lastPassing_map (test : β → Bool) (text : List α) (pos : Nat) :
    lastPassing test (text.map f) pos = lastPassing (fun c => test (f c)) text pos := by
  rw [lastPassing, lastPassing, List.length_map]
  congr 2
  funext i
  rw [List.getElem?_map, Option.any_map]

variable [DecidableEq α] [DecidableEq β] (injective : Function.Injective f)
include injective

theorem contains_map (text : List α) (c : α) : (text.map f).contains (f c) = text.contains c := by
  rw [Bool.eq_iff_iff, List.contains_iff_mem, List.contains_iff_mem, List.mem_map_of_injective injective]

end Widths

/-- What the operations of both widths return that share a template: what `std::basic_string` returns, and for a part
that starts behind the end, of which `std::basic_string` throws, the empty piece. -/
structure TemplatesAgree {α : Type} [DecidableEq α] (self s : BasicStringPiece α) (c : α) (pos n : Nat) : Prop where
  find : findT self s pos = stdFind self.chars s.chars pos
  findChar : findCharT self c pos = stdFind self.chars [c] pos
  rfind : rfindT self s pos = stdRfind self.chars s.chars pos
  rfindChar : rfindCharT self c pos = stdRfind self.chars [c] pos
  findFirstOfChar : findFirstOfChar self c pos = stdFindFirstOf self.chars [c] pos
  findFirstNotOfChar : findFirstNotOfCharT self c pos = stdFindFirstNotOf self.chars [c] pos
  findLastOfChar : findLastOfChar self c pos = stdFindLastOf self.chars [c] pos
  findLastNotOfChar : findLastNotOfCharT self c pos = stdFindLastNotOf self.chars [c] pos
  substr : (substrT self pos n).chars = (stdSubstr self.chars pos n).getD []

theorem templatesAgree {α : Type} [DecidableEq α] (self s : BasicStringPiece α) (c : α) (pos n : Nat) :
    TemplatesAgree self s c pos n := by
  have single (d : α) : [c].contains d = decide (d = c) := by
    rw [List.contains_cons, List.contains_nil, Bool.or_false]
    rfl
  have singleNot (d : α) : (!decide (d = c)) = decide (d ≠ c) := decide_not.symm
  constructor
  · exact findT_eq self s pos
  · exact findCharT_eq self c pos
  · exact rfindT_eq self s pos
  · exact rfindCharT_eq self c pos
  · simp only [findFirstOfChar, findCharT_eq, stdFind_singleton, stdFindFirstOf, single]
  · simp only [findFirstNotOfCharT, guarded_scanUp, stdFindFirstNotOf, single, singleNot]
  · simp only [findLastOfChar, rfindCharT_eq, stdRfind_singleton, stdFindLastOf, single]
  · simp only [findLastNotOfCharT, guarded_scanDown, stdFindLastNotOf, single, singleNot]
  · rw [chars_substrT, stdSubstr]
    split
    next behind => rw [List.drop_eq_nil_of_le behind.le, List.take_nil, Option.getD_none]
    next => rfl

/-- A character of 8 bits as one of 16 bits. -/
def widen (c : BitVec 8) : BitVec 16 := c.setWidth 16

theorem widen_injective : Function.Injective widen := by
  intro c d same
  have values := congrArg BitVec.toNat same
  rw [widen, widen, BitVec.toNat_setWidth_of_le (by decide), BitVec.toNat_setWidth_of_le (by decide)] at values
  exact BitVec.eq_of_toNat_eq values

/-- The searches with a set: the lookup tables of 8 bits and the loops of 16 bits agree with `std::basic_string`, and
with each other on the same text. -/
structure SetsAgree (self s : StringPiece) (self16 s16 : StringPiece16) (pos : Nat) : Prop where
  findFirstOf : findFirstOf8 self s pos = stdFindFirstOf self.chars s.chars pos
  findFirstNotOf : self.size = 0 ∨ s.size ≠ 0 ∨ pos = 0 → findFirstNotOf8 self s pos = stdFindFirstNotOf self.chars s.chars pos
  findLastOf : findLastOf8 self s pos = stdFindLastOf self.chars s.chars pos
  findLastNotOf : findLastNotOf8 self s pos = stdFindLastNotOf self.chars s.chars pos
  findFirstOf16 : pos ≤ self16.size → findFirstOf16 self16 s16 pos = some (stdFindFirstOf self16.chars s16.chars pos)
  findFirstNotOf16 : findFirstNotOf16 self16 s16 pos = stdFindFirstNotOf self16.chars s16.chars pos
  findLastOf16 : findLastOf16 self16 s16 pos = stdFindLastOf self16.chars s16.chars pos
  findLastNotOf16 : findLastNotOf16 self16 s16 pos = stdFindLastNotOf self16.chars s16.chars pos
  widened : self16.chars = self.chars.map widen → s16.chars = s.chars.map widen →
    (pos ≤ self.size → Strings.findFirstOf16 self16 s16 pos = some (findFirstOf8 self s pos)) ∧
      (self.size = 0 ∨ s.size ≠ 0 ∨ pos = 0 → Strings.findFirstNotOf16 self16 s16 pos = findFirstNotOf8 self s pos) ∧
      Strings.findLastOf16 self16 s16 pos = findLastOf8 self s pos ∧
      Strings.findLastNotOf16 self16 s16 pos = findLastNotOf8 self s pos

theorem setsAgree (self s : StringPiece) (self16 s16 : StringPiece16) (pos : Nat) : SetsAgree self s self16 s16 pos := by
  constructor
  · exact findFirstOf8_eq self s pos
  · exact findFirstNotOf8_eq self s pos
  · exact findLastOf8_eq self s pos
  · exact findLastNotOf8_eq self s pos
  · exact findFirstOf16_eq self16 s16 pos
  · exact findFirstNotOf16_eq self16 s16 pos
  · exact findLastOf16_eq self16 s16 pos
  · exact findLastNotOf16_eq self16 s16 pos
  · intro text set
    have size : self16.size = self.size := by
      rw [← self16.length_chars, text, List.length_map, self.length_chars]
    have contains (c : BitVec 8) : s16.chars.contains (widen c) = s.chars.contains c := by
      rw [set, contains_map widen_injective]
    refine ⟨fun inside => ?_, fun wanted => ?_, ?_, ?_⟩
    · rw [findFirstOf16_eq self16 s16 pos (by rwa [size]), findFirstOf8_eq, stdFindFirstOf, text, firstPassing_map]
      simp only [contains]
      rfl
    · rw [findFirstNotOf16_eq, findFirstNotOf8_eq self s pos wanted, stdFindFirstNotOf, text, firstPassing_map]
      simp only [contains]
      rfl
    · rw [findLastOf16_eq, findLastOf8_eq, stdFindLastOf, text, lastPassing_map]
      simp only [contains]
      rfl
    · rw [findLastNotOf16_eq, findLastNotOf8_eq, stdFindLastNotOf, text, lastPassing_map]
      simp only [contains]
      rfl

/-- The searches of both pieces, at any position. -/
theorem stringPiece_searches (self s : StringPiece) (self16 s16 : StringPiece16) (c : BitVec 8) (c16 : BitVec 16)
    (pos n : Nat) :
    TemplatesAgree self s c pos n ∧ TemplatesAgree self16 s16 c16 pos n ∧ SetsAgree self s self16 s16 pos :=
  ⟨templatesAgree self s c pos n, templatesAgree self16 s16 c16 pos n, setsAgree self s self16 s16 pos⟩

/-- The text "abc": the first character from 1 on that is not in the empty set, its part from 4 on, and its first
character of a set from 4 on. -/
theorem searches_differ :
    let bytes : StringPiece := ofString [0x61, 0x62, 0x63] (by decide)
    let none : StringPiece := ofString [] (by decide)
    let units : StringPiece16 := ofString [0x61, 0x62, 0x63] (by decide)
    findFirstNotOf8 bytes none 1 = 0 ∧ stdFindFirstNotOf bytes.chars none.chars 1 = 1 ∧
      (substrT bytes 4 1).chars = [] ∧ stdSubstr bytes.chars 4 1 = Option.none ∧
      findFirstOf16 units units 4 = Option.none ∧ stdFindFirstOf units.chars units.chars 4 = npos := by
  decide +kernel

end Libchrome.Base.Strings
