import Libchrome.Base.Strings.UtfConversions
import Libchrome.Library.Globbing
import Mathlib.Data.List.TakeWhile

/-! `MatchPattern` (`pattern.cc`) of 8-bit and 16-bit text, which is the list of what is between two pointers. -/

namespace Libchrome.Base.Strings
open Library.Bytes Library.TextEncoding Library.Globbing Utf8

/-- `CBU16_IS_LEAD`. -/
def isLead16 (c : Nat) : Bool := c / 0x400 = 0x36

/-- `CBU16_NEXT`: the code point at `i` and the index behind it. -/
def cbu16Next (s : Nat → Unit16) (i length : Nat) : Int × Nat :=
  let c := (s i).toNat
  if isLead16 c ∧ i + 1 < length ∧ isTrail16 (s (i + 1)).toNat then (getSupplementary c (s (i + 1)).toNat, i + 2)
  else (c, i + 1)

namespace Pattern
variable {w : Nat}

/-- `NEXT`: the code point at a pointer, and what is behind it. -/
structure Next (w : Nat) where
  read : List (BitVec w) → Int × List (BitVec w)
  advances : ∀ unit rest, (read (unit :: rest)).2.length ≤ rest.length

/-- `NextCharUTF8`. -/
def nextCharUTF8 : Next 8 where
  read p :=
    let next := cbu8Next (reader p) 0 (int32Length p.length)
    (next.1, p.drop next.2)
  advances unit rest := by
    have forward := lt_cbu8Next (reader (unit :: rest)) 0 (int32Length (unit :: rest).length)
    dsimp only
    generalize cbu8Next _ _ _ = next at forward ⊢
    rw [List.length_drop, List.length_cons]
    omega

/-- `NextCharUTF16`. -/
def nextCharUTF16 : Next 16 where
  read p :=
    let next := cbu16Next (reader16 p) 0 p.length
    (next.1, p.drop next.2)
  advances unit rest := by
    rw [List.length_drop, List.length_cons, cbu16Next]
    split_ifs
    all_goals
      dsimp only
      omega

/-- `IsWildcard`, of a unit. -/
def isWildcard (unit : BitVec w) : Bool := unit = 0x2A ∨ unit = 0x3F

/-- `EatSameChars`: what is left of the pattern and of the string. -/
def eatSameChars (next : Next w) (escape : Option (List (BitVec w))) :
    List (BitVec w) → List (BitVec w) → List (BitVec w) × List (BitVec w)
  | [], string => ([], string)
  | unit :: pattern, [] => (unit :: pattern, [])
  | unit :: pattern, other :: string =>
    if escape = none ∧ isWildcard unit then (unit :: pattern, other :: string)
    else if escape = none ∧ unit = 0x5C then
      eatSameChars next (some (unit :: pattern)) (next.read (unit :: pattern)).2 (other :: string)
    else if (next.read (unit :: pattern)).1 = (next.read (other :: string)).1 ∧
        (next.read (unit :: pattern)).1 ≠ sentinel then
      eatSameChars next none (next.read (unit :: pattern)).2 (next.read (other :: string)).2
    else (escape.getD (unit :: pattern), other :: string)
termination_by pattern => pattern.length
decreasing_by
  · exact Nat.lt_succ_of_le (next.advances unit pattern)
  · exact Nat.lt_succ_of_le (next.advances unit pattern)

/-- `EatWildcard`. -/
def eatWildcard (next : Next w) : List (BitVec w) → List (BitVec w)
  | [] => []
  | unit :: pattern => if isWildcard unit then eatWildcard next (next.read (unit :: pattern)).2 else unit :: pattern
termination_by pattern => pattern.length
decreasing_by exact Nat.lt_succ_of_le (next.advances unit pattern)

/-- `while (eval != eval_end)`, with what is tried at each unit. -/
def anySuffix (matches_ : List (BitVec w) → Bool) : List (BitVec w) → Bool
  | [] => false
  | unit :: eval => matches_ (unit :: eval) || anySuffix matches_ eval

def kMaxDepth : Nat := 16

/-- `MatchPatternT`, by the number of depths that are left. -/
def matchPatternT (next : Next w) : Nat → List (BitVec w) → List (BitVec w) → Bool
  | 0, _, _ => false
  | left + 1, eval, pattern =>
    let eaten := eatSameChars next none pattern eval
    let pattern := eaten.1
    let eval := eaten.2
    if eval = [] then eatWildcard next pattern = []
    else if pattern = [] then false
    else
      let nextPattern := (next.read pattern).2
      if pattern.head? = some 0x3F then
        matchPatternT next left eval nextPattern || matchPatternT next left (next.read eval).2 nextPattern
      else if pattern.head? = some 0x2A then
        let rest := eatWildcard next nextPattern
        anySuffix (fun eval => matchPatternT next left eval rest) eval || eatWildcard next pattern = []
      else false

/-- `MatchPattern`, where the depth starts at zero. -/
def matchPattern (next : Next w) (eval pattern : List (BitVec w)) : Bool :=
  matchPatternT next (kMaxDepth + 1) eval pattern

/-! ### The language of a pattern -/

/-- The piece that a character stands for by itself. -/
def piece (c : Nat) : Piece Nat :=
  if c = 0x2A then .any else if c = 0x3F then .optional else .char c

/-- The pieces of a pattern: a backslash makes the next character stand for itself; none where there is no next one. -/
def pieces : List Nat → Option (List (Piece Nat))
  | [] => some []
  | [c] => if c = 0x5C then none else some [piece c]
  | c :: other :: pattern =>
    if c = 0x5C then (pieces pattern).map (.char other :: ·) else (pieces (other :: pattern)).map (piece c :: ·)

/-- The texts that a pattern matches. -/
def glob (pattern : List Nat) : Language Nat := (pieces pattern).elim 0 language

/-- The number of wildcards, but for escaped ones. -/
def wildcards (pattern : List Nat) : Nat := ((pieces pattern).getD []).countP Piece.isWildcard

end Pattern

end Libchrome.Base.Strings

/-! The language of a pattern, character by character. -/

namespace Libchrome.Base.Strings.Pattern
open Library.Globbing

/-- The characters that are wildcards when nothing escapes them. -/
def wild (c : Nat) : Bool := c = 0x2A ∨ c = 0x3F

theorem piece_isWildcard (c : Nat) : (piece c).isWildcard = wild c := by
  rw [piece, wild]
  split_ifs with any optional
  · rw [any]
    rfl
  · rw [optional]
    rfl
  · rw [decide_eq_false (not_or.mpr ⟨any, optional⟩)]
    rfl

theorem piece_literal {c : Nat} (literal : wild c = false) : piece c = .char c := by
  have neither := not_or.mp (of_decide_eq_false literal)
  rw [piece, if_neg neither.1, if_neg neither.2]

variable {pattern text : List Nat} {c : Nat}

theorem pieces_cons (plain : c ≠ 0x5C) (pattern : List Nat) :
    pieces (c :: pattern) = (pieces pattern).map (piece c :: ·) := by
  cases pattern with
  | nil => exact if_neg plain
  | cons other pattern => rw [pieces, if_neg plain]

theorem pieces_escaped (c : Nat) (pattern : List Nat) :
    pieces (0x5C :: c :: pattern) = (pieces pattern).map (.char c :: ·) := by
  rw [pieces, if_pos rfl]

theorem mem_glob : text ∈ glob pattern ↔ ∃ all, pieces pattern = some all ∧ text ∈ language all := by
  rw [glob]
  cases pieces pattern with
  | none => exact iff_of_false (Language.notMem_zero text) fun ⟨_, same, _⟩ => Option.some_ne_none _ same.symm
  | some all => exact ⟨fun matches_ => ⟨all, rfl, matches_⟩, fun ⟨_, same, matches_⟩ => Option.some.inj same ▸ matches_⟩

theorem mem_glob_map {all : Option (List (Piece Nat))} {first : Piece Nat} :
    (∃ whole, all.map (first :: ·) = some whole ∧ text ∈ language whole) ↔
      ∃ rest, all = some rest ∧ text ∈ language (first :: rest) := by
  constructor
  · rintro ⟨whole, same, matches_⟩
    obtain ⟨rest, is_, rfl⟩ := Option.map_eq_some_iff.mp same
    exact ⟨rest, is_, matches_⟩
  · rintro ⟨rest, rfl, matches_⟩
    exact ⟨first :: rest, rfl, matches_⟩

theorem mem_glob_nil : text ∈ glob [] ↔ text = [] := mem_nil

/-- A pattern that ends in a backslash matches nothing. -/
theorem not_mem_glob_backslash : text ∉ glob [0x5C] := Language.notMem_zero text

theorem mem_glob_escaped :
    text ∈ glob (0x5C :: c :: pattern) ↔ ∃ rest ∈ glob pattern, text = c :: rest := by
  rw [mem_glob, pieces_escaped, mem_glob_map]
  simp only [mem_char, mem_glob]
  constructor
  · rintro ⟨all, same, rest, matches_, is_⟩
    exact ⟨rest, ⟨all, same, matches_⟩, is_⟩
  · rintro ⟨rest, ⟨all, same, matches_⟩, is_⟩
    exact ⟨all, same, rest, matches_, is_⟩

theorem mem_glob_literal (plain : c ≠ 0x5C) (literal : wild c = false) :
    text ∈ glob (c :: pattern) ↔ ∃ rest ∈ glob pattern, text = c :: rest := by
  rw [← mem_glob_escaped, mem_glob, mem_glob, pieces_cons plain, pieces_escaped, piece_literal literal]

theorem mem_glob_optional :
    text ∈ glob (0x3F :: pattern) ↔ text ∈ glob pattern ∨ ∃ c, ∃ rest ∈ glob pattern, text = c :: rest := by
  rw [mem_glob, pieces_cons (by decide), mem_glob_map]
  constructor
  · rintro ⟨all, same, matches_⟩
    rcases mem_optional.mp matches_ with rest | ⟨c, rest, matches_, is_⟩
    · exact .inl (mem_glob.mpr ⟨all, same, rest⟩)
    · exact .inr ⟨c, rest, mem_glob.mpr ⟨all, same, matches_⟩, is_⟩
  · rintro (matches_ | ⟨c, rest, matches_, is_⟩)
    · obtain ⟨all, same, matches_⟩ := mem_glob.mp matches_
      exact ⟨all, same, mem_optional.mpr (.inl matches_)⟩
    · obtain ⟨all, same, matches_⟩ := mem_glob.mp matches_
      exact ⟨all, same, mem_optional.mpr (.inr ⟨c, rest, matches_, is_⟩)⟩

/-- Nothing is escaped in front of the first character that is not a wildcard. -/
theorem pieces_dropWhile :
    pieces (pattern.dropWhile wild) = (pieces pattern).map (List.dropWhile Piece.isWildcard) := by
  induction pattern with
  | nil => rfl
  | cons c pattern ih =>
    cases wildcard : wild c with
    | true =>
      have plain : c ≠ 0x5C := by
        rintro rfl
        exact Bool.false_ne_true wildcard
      have is_ := (piece_isWildcard c).trans wildcard
      rw [List.dropWhile_cons_of_pos wildcard, ih, pieces_cons plain, Option.map_map]
      congr 1
      funext all
      exact (List.dropWhile_cons_of_pos is_).symm
    | false =>
      have first : ∃ literal, ∃ rest, pieces (c :: pattern) = (pieces rest).map (.char literal :: ·) ∨
          pieces (c :: pattern) = none := by
        by_cases escape : c = 0x5C
        · rw [escape]
          cases pattern with
          | nil => exact ⟨0, [], .inr rfl⟩
          | cons other pattern => exact ⟨other, pattern, .inl (pieces_escaped other pattern)⟩
        · exact ⟨c, pattern, .inl (by rw [pieces_cons escape, piece_literal wildcard])⟩
      rw [List.dropWhile_cons_of_neg (by rw [wildcard]; exact Bool.false_ne_true)]
      obtain ⟨literal, rest, is_ | is_⟩ := first
      · rw [is_, Option.map_map]
        rfl
      · rw [is_, Option.map_none]

/-- The wildcards behind a star may be left out. -/
theorem mem_glob_any :
    text ∈ glob (0x2A :: pattern) ↔ ∃ rest ∈ glob (pattern.dropWhile wild), rest <:+ text := by
  rw [mem_glob, pieces_cons (by decide), mem_glob_map]
  constructor
  · rintro ⟨all, same, matches_⟩
    obtain ⟨rest, matchesRest, suffix⟩ := mem_any_dropWhile.mp matches_
    exact ⟨rest, mem_glob.mpr ⟨_, by rw [pieces_dropWhile, same, Option.map_some], matchesRest⟩, suffix⟩
  · rintro ⟨rest, matches_, suffix⟩
    obtain ⟨dropped, same, matchesRest⟩ := mem_glob.mp matches_
    rw [pieces_dropWhile] at same
    obtain ⟨all, is_, rfl⟩ := Option.map_eq_some_iff.mp same
    exact ⟨all, is_, mem_any_dropWhile.mpr ⟨rest, matchesRest, suffix⟩⟩

theorem pieces_eq_nil : pieces pattern = some [] ↔ pattern = [] := by
  constructor
  · intro none
    cases pattern with
    | nil => rfl
    | cons c pattern =>
      by_cases escape : c = 0x5C
      · rw [escape] at none
        cases pattern with
        | nil => exact absurd none (Option.some_ne_none _).symm
        | cons other pattern =>
          rw [pieces_escaped] at none
          obtain ⟨_, _, same⟩ := Option.map_eq_some_iff.mp none
          exact absurd same (List.cons_ne_nil _ _)
      · rw [pieces_cons escape] at none
        obtain ⟨_, _, same⟩ := Option.map_eq_some_iff.mp none
        exact absurd same (List.cons_ne_nil _ _)
  · rintro rfl
    rfl

theorem nil_mem_glob : [] ∈ glob pattern ↔ pattern.dropWhile wild = [] := by
  rw [mem_glob, ← pieces_eq_nil, pieces_dropWhile, Option.map_eq_some_iff]
  simp only [nil_mem, List.dropWhile_eq_nil_iff]

/-! ### The number of wildcards -/

theorem wildcards_escaped (c : Nat) : wildcards (0x5C :: c :: pattern) = wildcards pattern := by
  rw [wildcards, wildcards, pieces_escaped]
  cases pieces pattern with
  | none => rfl
  | some all => rfl

theorem wildcards_literal (plain : c ≠ 0x5C) (literal : wild c = false) :
    wildcards (c :: pattern) = wildcards pattern := by
  rw [← @wildcards_escaped pattern c, wildcards, wildcards, pieces_cons plain, pieces_escaped, piece_literal literal]

theorem wildcards_wild (wildcard : wild c = true) (matches_ : text ∈ glob (c :: pattern)) :
    wildcards (c :: pattern) = wildcards pattern + 1 := by
  have plain : c ≠ 0x5C := by
    rintro rfl
    exact Bool.false_ne_true wildcard
  obtain ⟨all, same, _⟩ := mem_glob.mp matches_
  rw [pieces_cons plain] at same
  obtain ⟨rest, is_, _⟩ := Option.map_eq_some_iff.mp same
  rw [wildcards, wildcards, pieces_cons plain, is_]
  exact List.countP_cons_of_pos ((piece_isWildcard c).trans wildcard)

theorem wildcards_dropWhile_le (pattern : List Nat) : wildcards (pattern.dropWhile wild) ≤ wildcards pattern := by
  rw [wildcards, wildcards, pieces_dropWhile]
  cases pieces pattern with
  | none => exact le_rfl
  | some all => exact (List.dropWhile_sublist _).countP_le

end Libchrome.Base.Strings.Pattern
