import Libchrome.Library.Bytes
import Mathlib.Computability.Language

/-! # The patterns of `--vmodule` (`vlog.cc`) -/

namespace Libchrome.Base.Vlog

open Library.Bytes

/-- The `switch` on a character of the pattern. -/
def agrees (p s : Byte) : Bool :=
  if p = 0x2F ∨ p = 0x5C then s = 0x2F ∨ s = 0x5C
  else if p = 0x3F then true
  else p = s

/-- The first loop: what is left of the pattern and of the string, or `none` where the function returns. -/
def consume : List Byte → List Byte → Option (List Byte × List Byte)
  | [], s => some ([], s)
  | p :: pattern, [] => some (p :: pattern, [])
  | p :: pattern, s :: string =>
    if p = 0x2A then some (p :: pattern, s :: string)
    else if agrees p s then consume pattern string
    else none

/-- The last loop. -/
def anySuffix (matches_ : List Byte → Option Bool) : List Byte → Option Bool
  | [] => some false
  | s :: string => (matches_ (s :: string)).bind fun matched => if matched then some true else anySuffix matches_ string

/-- `MatchVlogPattern`; `none` where its calls are more than `fuel` deep. -/
def matchVlogPattern : Nat → List Byte → List Byte → Option Bool
  | 0, _, _ => none
  | fuel + 1, string, vlog_pattern =>
    match consume vlog_pattern string with
    | none => some false
    | some (p, s) =>
      if p = [] then some s.isEmpty
      else
        let p := p.dropWhile (· = 0x2A)
        if p = [] then some true else anySuffix (matchVlogPattern fuel · p) s

/-! ### The language of a pattern -/

/-- The characters that one of the pattern stands for, but for a star. -/
def accepts (p : Byte) : Set Byte :=
  if p = 0x3F then Set.univ else if p = 0x2F ∨ p = 0x5C then {0x2F, 0x5C} else {p}

/-- A star stands for any text, another character for one character. -/
def piece (p : Byte) : Language Byte := {text | p = 0x2A ∨ ∃ s ∈ accepts p, text = [s]}

/-- The texts of which the characters of the pattern match consecutive parts. -/
def glob (pattern : List Byte) : Language Byte := (pattern.map piece).prod

variable {p s : Byte} {pattern string : List Byte}

theorem agrees_iff (p s : Byte) : agrees p s = true ↔ s ∈ accepts p := by
  rw [agrees, accepts]
  by_cases slash : p = 0x2F ∨ p = 0x5C
  · have other : p ≠ 0x3F := by
      rcases slash with rfl | rfl <;> decide
    rw [if_pos slash, if_neg other, if_pos slash]
    exact decide_eq_true_iff
  · rw [if_neg slash, if_neg slash]
    by_cases any : p = 0x3F
    · rw [if_pos any, if_pos any]
      exact iff_of_true rfl (Set.mem_univ s)
    · rw [if_neg any, if_neg any, decide_eq_true_iff]
      exact eq_comm

theorem mem_glob_nil : string ∈ glob [] ↔ string = [] := Language.mem_one string

theorem mem_glob_cons (literal : p ≠ 0x2A) :
    string ∈ glob (p :: pattern) ↔ ∃ s ∈ accepts p, ∃ rest ∈ glob pattern, string = s :: rest := by
  rw [glob, List.map_cons, List.prod_cons, Language.mem_mul]
  constructor
  · rintro ⟨front, star | ⟨s, accepted, rfl⟩, rest, matches_, rfl⟩
    · exact absurd star literal
    · exact ⟨s, accepted, rest, matches_, rfl⟩
  · rintro ⟨s, accepted, rest, matches_, rfl⟩
    exact ⟨[s], .inr ⟨s, accepted, rfl⟩, rest, matches_, rfl⟩

theorem mem_glob_star : string ∈ glob (0x2A :: pattern) ↔ ∃ rest ∈ glob pattern, rest <:+ string := by
  rw [glob, List.map_cons, List.prod_cons, Language.mem_mul]
  constructor
  · rintro ⟨front, _, rest, matches_, rfl⟩
    exact ⟨rest, matches_, List.suffix_append front rest⟩
  · rintro ⟨rest, matches_, front, rfl⟩
    exact ⟨front, .inl rfl, rest, matches_, rfl⟩

theorem mem_glob_stars :
    string ∈ glob (0x2A :: pattern) ↔ ∃ rest ∈ glob (pattern.dropWhile (· = 0x2A)), rest <:+ string := by
  rw [mem_glob_star]
  induction pattern with
  | nil => rfl
  | cons p pattern ih =>
    by_cases star : p = 0x2A
    · subst star
      rw [List.dropWhile_cons_of_pos (by decide), ← ih]
      constructor
      · rintro ⟨rest, matches_, suffix⟩
        obtain ⟨last, matchesLast, suffixLast⟩ := mem_glob_star.mp matches_
        exact ⟨last, matchesLast, suffixLast.trans suffix⟩
      · rintro ⟨rest, matches_, suffix⟩
        exact ⟨rest, mem_glob_star.mpr ⟨rest, matches_, List.suffix_rfl⟩, suffix⟩
    · rw [List.dropWhile_cons_of_neg (by simpa using star)]

theorem nil_not_mem_glob (literal : p ≠ 0x2A) : [] ∉ glob (p :: pattern) := by
  rw [mem_glob_cons literal]
  rintro ⟨s, _, rest, _, same⟩
  cases same

/-! ### The loops -/

/-- The loop returns only where nothing matches, and else leaves the question as it was, at an end or at a star. -/
theorem consume_spec (pattern string : List Byte) :
    match consume pattern string with
    | none => string ∉ glob pattern
    | some (p, s) => (string ∈ glob pattern ↔ s ∈ glob p) ∧ p.length ≤ pattern.length ∧
        (p = [] ∨ s = [] ∨ p.head? = some 0x2A) := by
  induction pattern generalizing string with
  | nil => exact ⟨Iff.rfl, Nat.le_refl _, .inl rfl⟩
  | cons p pattern ih =>
    cases string with
    | nil => exact ⟨Iff.rfl, Nat.le_refl _, .inr (.inl rfl)⟩
    | cons s string =>
      rw [consume]
      by_cases star : p = 0x2A
      · rw [if_pos star]
        exact ⟨Iff.rfl, Nat.le_refl _, .inr (.inr (congrArg some star))⟩
      · have step : s :: string ∈ glob (p :: pattern) ↔ agrees p s = true ∧ string ∈ glob pattern := by
          rw [mem_glob_cons star, agrees_iff]
          constructor
          · rintro ⟨_, accepted, _, matches_, same⟩
            cases same
            exact ⟨accepted, matches_⟩
          · exact fun ⟨accepted, matches_⟩ => ⟨s, accepted, string, matches_, rfl⟩
        rw [if_neg star]
        by_cases agreed : agrees p s = true
        · have rest := ih string
          rw [if_pos agreed]
          cases loop : consume pattern string with
          | none =>
            rw [loop] at rest
            exact fun both => rest (step.mp both).2
          | some left =>
            rw [loop] at rest
            exact ⟨step.trans ((and_iff_right agreed).trans rest.1), Nat.le_succ_of_le rest.2.1, rest.2.2⟩
        · rw [if_neg agreed, step]
          exact fun both => agreed both.1

theorem anySuffix_spec {matches_ : List Byte → Option Bool} {language : Language Byte}
    (correct : ∀ s, ∃ result, matches_ s = some result ∧ (result = true ↔ s ∈ language)) (string : List Byte) :
    ∃ result, anySuffix matches_ string = some result ∧
      (result = true ↔ ∃ rest ∈ language, rest ≠ [] ∧ rest <:+ string) := by
  induction string with
  | nil =>
    refine ⟨false, rfl, iff_of_false Bool.false_ne_true ?_⟩
    rintro ⟨rest, _, some_, suffix⟩
    exact some_ (List.suffix_nil.mp suffix)
  | cons s string ih =>
    obtain ⟨here, returned, matched⟩ := correct (s :: string)
    obtain ⟨later, loop, found⟩ := ih
    rw [anySuffix, returned, Option.bind_some]
    cases here with
    | true =>
      exact ⟨true, rfl, iff_of_true rfl ⟨s :: string, matched.mp rfl, List.cons_ne_nil s string, List.suffix_rfl⟩⟩
    | false =>
      refine ⟨later, loop, found.trans ?_⟩
      constructor
      · rintro ⟨rest, matches_, some_, suffix⟩
        exact ⟨rest, matches_, some_, suffix.trans (List.suffix_cons s string)⟩
      · rintro ⟨rest, matches_, some_, suffix⟩
        rcases List.suffix_cons_iff.mp suffix with rfl | suffix
        · exact absurd (matched.mpr matches_) Bool.false_ne_true
        · exact ⟨rest, matches_, some_, suffix⟩

theorem dropWhile_stars (pattern : List Byte) : pattern.dropWhile (· = 0x2A) = [] ∨
    ∃ p rest, p ≠ 0x2A ∧ pattern.dropWhile (· = 0x2A) = p :: rest := by
  cases left : pattern.dropWhile (· = 0x2A) with
  | nil => exact .inl rfl
  | cons p rest =>
    have some_ : pattern.dropWhile (fun p => decide (p = 0x2A)) ≠ [] := left ▸ List.cons_ne_nil p rest
    have literal := List.head_dropWhile_not _ some_
    simp only [left, List.head_cons, decide_eq_false_iff_not] at literal
    exact .inr ⟨p, rest, literal, rfl⟩

theorem matchVlogPattern_of_length_lt {fuel : Nat} (string vlog_pattern : List Byte)
    (enough : vlog_pattern.length < fuel) : ∃ result, matchVlogPattern fuel string vlog_pattern = some result ∧
      (result = true ↔ string ∈ glob vlog_pattern) := by
  induction fuel generalizing string vlog_pattern with
  | zero => exact absurd enough (Nat.not_lt_zero _)
  | succ fuel ih =>
    have loop := consume_spec vlog_pattern string
    rw [matchVlogPattern]
    split at loop
    next => exact ⟨false, rfl, iff_of_false Bool.false_ne_true loop⟩
    next p s _ =>
      obtain ⟨same, shorter, stop⟩ := loop
      rw [same]
      cases p with
      | nil => exact ⟨s.isEmpty, rfl, List.isEmpty_iff.trans mem_glob_nil.symm⟩
      | cons c p =>
        dsimp only
        rw [if_neg (List.cons_ne_nil c p)]
        by_cases star : c = 0x2A
        · subst star
          rw [List.dropWhile_cons_of_pos (by decide), mem_glob_stars]
          obtain none | ⟨c, rest, literal, some_⟩ := dropWhile_stars p
          · rw [none, if_pos rfl]
            exact ⟨true, rfl, iff_of_true rfl ⟨[], mem_glob_nil.mpr rfl, List.nil_suffix⟩⟩
          · have fewer : (c :: rest).length < fuel := by
              have most := (List.dropWhile_sublist (fun c => decide (c = 0x2A)) (l := p)).length_le
              rw [some_] at most
              rw [List.length_cons] at shorter
              omega
            obtain ⟨result, ends, found⟩ := anySuffix_spec (fun s => ih s (c :: rest) fewer) s
            rw [some_, if_neg (List.cons_ne_nil c rest)]
            refine ⟨result, ends, found.trans (exists_congr fun rest => and_congr_right fun matches_ => ?_)⟩
            exact and_iff_right (ne_of_mem_of_not_mem matches_ (nil_not_mem_glob literal))
        · have nothing : s = [] := by
            rcases stop with none | none | none
            · cases none
            · exact none
            · exact absurd (Option.some.inj none) star
          rw [List.dropWhile_cons_of_neg (by simpa using star), if_neg (List.cons_ne_nil c p), nothing]
          exact ⟨false, rfl, iff_of_false Bool.false_ne_true (nil_not_mem_glob star)⟩

/-- `MatchVlogPattern` ends, at most one call deeper for each character of the pattern, and returns whether the string
is in the language of the pattern. -/
theorem matchVlogPattern_iff (string vlog_pattern : List Byte) :
    ∃ result, matchVlogPattern (vlog_pattern.length + 1) string vlog_pattern = some result ∧
      (result = true ↔ string ∈ glob vlog_pattern) :=
  matchVlogPattern_of_length_lt string vlog_pattern (Nat.lt_succ_self _)

/-- `*a?` and a string with an `a` in it. -/
example : matchVlogPattern 4 [0x62, 0x61, 0x2F] [0x2A, 0x61, 0x3F] = some true := by decide

end Libchrome.Base.Vlog
