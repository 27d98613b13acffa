import Mathlib.Computability.Language

/-! The languages of patterns with wildcards. -/

namespace Libchrome.Library.Globbing

variable {C : Type}

/-- A piece of a pattern: any text, at most one character, or one character. -/
inductive Piece (C : Type)
  | any
  | optional
  | char (c : C)
  deriving DecidableEq

namespace Piece

def isWildcard : Piece C → Bool
  | any => true
  | optional => true
  | char _ => false

def language : Piece C → Language C
  | any => Set.univ
  | optional => {text | text.length ≤ 1}
  | char c => {[c]}

end Piece

/-- The texts of which the pieces match consecutive parts. -/
def language (pieces : List (Piece C)) : Language C := (pieces.map Piece.language).prod

variable {pieces : List (Piece C)} {text : List C}

theorem mem_nil : text ∈ language ([] : List (Piece C)) ↔ text = [] := Language.mem_one text

theorem mem_cons {piece : Piece C} : text ∈ language (piece :: pieces) ↔
    ∃ front ∈ piece.language, ∃ rest ∈ language pieces, front ++ rest = text := by
  rw [language, List.map_cons, List.prod_cons, Language.mem_mul]
  rfl

theorem mem_char {c : C} : text ∈ language (.char c :: pieces) ↔ ∃ rest ∈ language pieces, text = c :: rest := by
  rw [mem_cons]
  constructor
  · rintro ⟨front, only, rest, matches_, rfl⟩
    rw [show front = [c] from only]
    exact ⟨rest, matches_, rfl⟩
  · rintro ⟨rest, matches_, rfl⟩
    exact ⟨[c], rfl, rest, matches_, rfl⟩

theorem mem_optional : text ∈ language (.optional :: pieces) ↔
    text ∈ language pieces ∨ ∃ c, ∃ rest ∈ language pieces, text = c :: rest := by
  rw [mem_cons]
  constructor
  · rintro ⟨front, few, rest, matches_, rfl⟩
    cases front with
    | nil => exact .inl matches_
    | cons c front =>
      have none : front = [] := List.eq_nil_of_length_eq_zero (Nat.le_zero.mp (Nat.le_of_succ_le_succ few))
      rw [none]
      exact .inr ⟨c, rest, matches_, rfl⟩
  · rintro (matches_ | ⟨c, rest, matches_, rfl⟩)
    · exact ⟨[], Nat.zero_le 1, text, matches_, rfl⟩
    · exact ⟨[c], Nat.le_refl 1, rest, matches_, rfl⟩

theorem mem_any : text ∈ language (.any :: pieces) ↔ ∃ rest ∈ language pieces, rest <:+ text := by
  rw [mem_cons]
  constructor
  · rintro ⟨front, _, rest, matches_, rfl⟩
    exact ⟨rest, matches_, List.suffix_append front rest⟩
  · rintro ⟨rest, matches_, front, rfl⟩
    exact ⟨front, Set.mem_univ front, rest, matches_, rfl⟩

/-- The empty text matches wildcards only. -/
theorem nil_mem : [] ∈ language pieces ↔ ∀ piece ∈ pieces, piece.isWildcard = true := by
  induction pieces with
  | nil => exact iff_of_true (mem_nil.mpr rfl) fun piece member => absurd member List.not_mem_nil
  | cons piece pieces ih =>
    rw [List.forall_mem_cons, ← ih]
    cases piece with
    | any =>
      rw [mem_any]
      constructor
      · rintro ⟨rest, matches_, suffix⟩
        exact ⟨rfl, List.suffix_nil.mp suffix ▸ matches_⟩
      · exact fun matches_ => ⟨[], matches_.2, List.suffix_rfl⟩
    | optional =>
      rw [mem_optional]
      constructor
      · rintro (matches_ | ⟨c, rest, _, same⟩)
        · exact ⟨rfl, matches_⟩
        · cases same
      · exact fun matches_ => .inl matches_.2
    | char c =>
      rw [mem_char]
      constructor
      · rintro ⟨rest, _, same⟩
        cases same
      · exact fun both => absurd both.1 Bool.false_ne_true

/-- Wildcards behind one for any text match nothing more. -/
theorem mem_any_dropWhile : text ∈ language (.any :: pieces) ↔
    ∃ rest ∈ language (pieces.dropWhile Piece.isWildcard), rest <:+ text := by
  rw [mem_any]
  induction pieces with
  | nil => rfl
  | cons piece pieces ih =>
    cases piece with
    | any =>
      rw [List.dropWhile_cons_of_pos rfl, ← ih]
      constructor
      · rintro ⟨rest, matches_, suffix⟩
        obtain ⟨last, matchesLast, suffixLast⟩ := mem_any.mp matches_
        exact ⟨last, matchesLast, suffixLast.trans suffix⟩
      · rintro ⟨rest, matches_, suffix⟩
        exact ⟨rest, mem_any.mpr ⟨rest, matches_, List.suffix_rfl⟩, suffix⟩
    | optional =>
      rw [List.dropWhile_cons_of_pos rfl, ← ih]
      constructor
      · rintro ⟨rest, matches_, suffix⟩
        rcases mem_optional.mp matches_ with same | ⟨c, last, matchesLast, rfl⟩
        · exact ⟨rest, same, suffix⟩
        · exact ⟨last, matchesLast, (List.suffix_cons c last).trans suffix⟩
      · rintro ⟨rest, matches_, suffix⟩
        exact ⟨rest, mem_optional.mpr (.inl matches_), suffix⟩
    | char c => rw [List.dropWhile_cons_of_neg Bool.false_ne_true]

end Libchrome.Library.Globbing
