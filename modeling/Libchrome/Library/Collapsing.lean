import Mathlib.Data.List.DropRight

/-!
# Collapsing runs

Text without the blanks at its ends, in which every inner run of blanks has shrunk to a single space, or to nothing
when something in it breaks it. A reader that goes through the text once and holds the space of a run back until the
run is over computes it.
-/

namespace Libchrome.Library.Collapsing

variable {α : Type} (blank breaks : α → Bool) (space : α)

/-- The text without the blanks at its ends. -/
def trimEnds (text : List α) : List α := (text.dropWhile blank).rdropWhile blank

/-- What a run of blanks leaves. -/
def gap (run : List α) : List α := if run.any breaks then [] else [space]

/-- The text with its maximal runs of blanks replaced. -/
def squeezeRuns : List α → List α
  | [] => []
  | c :: rest =>
    if blank c then gap breaks space (c :: rest.takeWhile blank) ++ squeezeRuns (rest.dropWhile blank)
    else c :: squeezeRuns rest
  termination_by text => text.length
  decreasing_by
    · exact Nat.lt_succ_of_le (List.dropWhile_suffix blank).length_le
    · exact Nat.lt_succ_self _

/-- The text without the blanks at its ends, and with its inner runs of blanks replaced. -/
def collapse (text : List α) : List α := squeezeRuns blank breaks space (trimEnds blank text)

/-- The number of runs of blanks that leave a space. -/
def spacesLeft : List α → Nat
  | [] => 0
  | c :: rest =>
    if blank c then (gap breaks space (c :: rest.takeWhile blank)).length + spacesLeft (rest.dropWhile blank)
    else spacesLeft rest
  termination_by text => text.length
  decreasing_by
    · exact Nat.lt_succ_of_le (List.dropWhile_suffix blank).length_le
    · exact Nat.lt_succ_self _

/-! ### One pass over the text -/

/-- Where a reader is: behind a character, in a run that leaves a space so far, or in one that leaves nothing. -/
inductive Place
  | word
  | gap
  | dropped
  deriving DecidableEq

/-- What the rest of the text adds to the output. -/
def collapseFrom : Place → List α → List α
  | _, [] => []
  | .word, c :: rest =>
    if blank c then collapseFrom (if breaks c then .dropped else .gap) rest else c :: collapseFrom .word rest
  | .gap, c :: rest =>
    if blank c then collapseFrom (if breaks c then .dropped else .gap) rest else space :: c :: collapseFrom .word rest
  | .dropped, c :: rest => if blank c then collapseFrom .dropped rest else c :: collapseFrom .word rest

variable {blank breaks : α → Bool} {space : α}

theorem rdropWhile_cons (c : α) (rest : List α) :
    (c :: rest).rdropWhile blank =
      if blank c ∧ rest.rdropWhile blank = [] then [] else c :: rest.rdropWhile blank := by
  induction rest using List.reverseRecOn with
  | nil => simp only [List.rdropWhile_nil, and_true, List.rdropWhile_singleton]
  | append_singleton front last ih =>
    rw [← List.cons_append, List.rdropWhile_concat, List.rdropWhile_concat, ih]
    by_cases blankLast : blank last = true
    · rw [if_pos blankLast, if_pos blankLast]
    · rw [if_neg blankLast, if_neg blankLast, if_neg fun both => by simp at both]
      rfl

theorem rdropWhile_cons_of_nil {c : α} {rest : List α} (blankFirst : blank c = true) (all : rest.rdropWhile blank = []) :
    (c :: rest).rdropWhile blank = [] := by
  rw [rdropWhile_cons, if_pos ⟨blankFirst, all⟩]

theorem rdropWhile_cons_of_not_nil (c : α) {rest : List α} (more : ¬ rest.rdropWhile blank = []) :
    (c :: rest).rdropWhile blank = c :: rest.rdropWhile blank := by
  rw [rdropWhile_cons, if_neg fun both => more both.2]

theorem rdropWhile_cons_of_solid {c : α} (solid : blank c = false) (rest : List α) :
    (c :: rest).rdropWhile blank = c :: rest.rdropWhile blank := by
  rw [rdropWhile_cons, if_neg fun both => by rw [solid] at both; exact absurd both.1 (by decide)]

theorem squeezeRuns_cons {c : α} (solid : blank c = false) (rest : List α) :
    squeezeRuns blank breaks space (c :: rest) = c :: squeezeRuns blank breaks space rest := by
  rw [squeezeRuns, if_neg (by rw [solid]; decide)]

/-- What is left of a text without the blanks at its end when a run of blanks goes on at its start. -/
def afterRun (blank breaks : α → Bool) (space : α) (run text : List α) : List α :=
  if text.rdropWhile blank = [] then []
  else gap breaks space (run ++ (text.rdropWhile blank).takeWhile blank) ++
    squeezeRuns blank breaks space ((text.rdropWhile blank).dropWhile blank)

theorem trimEnds_cons_blank {c : α} (blankFirst : blank c = true) (rest : List α) :
    trimEnds blank (c :: rest) = trimEnds blank rest := by
  rw [trimEnds, List.dropWhile_cons_of_pos blankFirst, trimEnds]

theorem trimEnds_cons {c : α} (solid : blank c = false) (rest : List α) :
    trimEnds blank (c :: rest) = c :: rest.rdropWhile blank := by
  rw [trimEnds, List.dropWhile_cons_of_neg (by rw [solid]; decide), rdropWhile_cons_of_solid solid]

theorem trimEnds_trimEnds (text : List α) : trimEnds blank (trimEnds blank text) = trimEnds blank text := by
  induction text with
  | nil => rfl
  | cons c rest ih =>
    by_cases blankFirst : blank c = true
    · rwa [trimEnds_cons_blank blankFirst]
    · have solid := Bool.eq_false_iff.mpr blankFirst
      rw [trimEnds_cons solid, trimEnds_cons solid, List.rdropWhile_idempotent]

theorem squeezeRuns_of_blank {c : α} (blankFirst : blank c = true) (rest : List α) :
    squeezeRuns blank breaks space ((c :: rest).rdropWhile blank) = afterRun blank breaks space [c] rest := by
  rw [afterRun]
  by_cases all : rest.rdropWhile blank = []
  · rw [rdropWhile_cons_of_nil blankFirst all, if_pos all, squeezeRuns]
  · rw [rdropWhile_cons_of_not_nil c all, if_neg all, squeezeRuns, if_pos blankFirst]
    rfl

theorem afterRun_cons_blank {c : α} (blankFirst : blank c = true) (run rest : List α) :
    afterRun blank breaks space run (c :: rest) = afterRun blank breaks space (run ++ [c]) rest := by
  rw [afterRun, afterRun]
  by_cases all : rest.rdropWhile blank = []
  · rw [rdropWhile_cons_of_nil blankFirst all, if_pos rfl, if_pos all]
  · rw [rdropWhile_cons_of_not_nil c all, if_neg (List.cons_ne_nil _ _), if_neg all,
      List.takeWhile_cons_of_pos blankFirst, List.dropWhile_cons_of_pos blankFirst, List.append_assoc]
    rfl

theorem afterRun_cons {c : α} (solid : blank c = false) (run rest : List α) :
    afterRun blank breaks space run (c :: rest) =
      gap breaks space run ++ c :: squeezeRuns blank breaks space (rest.rdropWhile blank) := by
  have stays : ¬ blank c = true := by rw [solid]; decide
  rw [afterRun, rdropWhile_cons_of_solid solid, if_neg (List.cons_ne_nil _ _), List.takeWhile_cons_of_neg stays,
    List.dropWhile_cons_of_neg stays, List.append_nil, squeezeRuns_cons solid]

theorem collapseFrom_eq (text : List α) :
    collapseFrom blank breaks space .word text = squeezeRuns blank breaks space (text.rdropWhile blank) ∧
      (∀ run : List α, run.any breaks = false →
        collapseFrom blank breaks space .gap text = afterRun blank breaks space run text) ∧
      (∀ run : List α, run.any breaks = true →
        collapseFrom blank breaks space .dropped text = afterRun blank breaks space run text) ∧
      collapseFrom blank breaks space .dropped text = collapse blank breaks space text := by
  induction text with
  | nil =>
    refine ⟨?_, fun run _ => rfl, fun run _ => rfl, ?_⟩
    · rw [List.rdropWhile_nil, squeezeRuns]
      rfl
    · rw [collapse, trimEnds, List.dropWhile_nil, List.rdropWhile_nil, squeezeRuns]
      rfl
  | cons c rest ih =>
    obtain ⟨word, inGap, inDropped, leading⟩ := ih
    have step (run : List α) (intact : run.any breaks = false) (blankFirst : blank c = true) :
        collapseFrom blank breaks space (if breaks c then .dropped else .gap) rest =
          afterRun blank breaks space (run ++ [c]) rest := by
      split
      next broken => exact inDropped _ (by rw [List.any_append, List.any_cons, broken, Bool.true_or, Bool.or_true])
      next whole =>
        apply inGap
        rw [List.any_append, intact, List.any_cons, Bool.eq_false_iff.mpr whole, List.any_nil]
        rfl
    by_cases blankFirst : blank c = true
    · refine ⟨?_, fun run intact => ?_, fun run broken => ?_, ?_⟩
      · rw [collapseFrom, if_pos blankFirst, squeezeRuns_of_blank blankFirst]
        exact step [] rfl blankFirst
      · rw [collapseFrom, if_pos blankFirst, afterRun_cons_blank blankFirst]
        exact step run intact blankFirst
      · rw [collapseFrom, if_pos blankFirst, afterRun_cons_blank blankFirst]
        exact inDropped _ (by rw [List.any_append, broken, Bool.true_or])
      · rw [collapseFrom, if_pos blankFirst, leading, collapse, collapse, trimEnds_cons_blank blankFirst]
    · have solid : blank c = false := Bool.eq_false_iff.mpr blankFirst
      refine ⟨?_, fun run intact => ?_, fun run broken => ?_, ?_⟩
      · rw [collapseFrom, if_neg blankFirst, word, rdropWhile_cons_of_solid solid, squeezeRuns_cons solid]
      · rw [collapseFrom, if_neg blankFirst, word, afterRun_cons solid, gap, intact]
        rfl
      · rw [collapseFrom, if_neg blankFirst, word, afterRun_cons solid, gap, broken]
        rfl
      · rw [collapseFrom, if_neg blankFirst, word, collapse, trimEnds_cons solid, squeezeRuns_cons solid]

theorem collapseFrom_dropped (text : List α) :
    collapseFrom blank breaks space .dropped text = collapse blank breaks space text :=
  (collapseFrom_eq text).2.2.2

/-! ### Collapsed text stays as it is -/

section Idempotent
variable (blankSpace : blank space = true) (wholeSpace : breaks space = false)
include blankSpace wholeSpace

theorem collapseFrom_word_collapseFrom (place : Place) (text : List α) :
    collapseFrom blank breaks space .word (collapseFrom blank breaks space place text) =
      collapseFrom blank breaks space place text := by
  have solid {c : α} {rest : List α} (stays : ¬ blank c = true)
      (kept : collapseFrom blank breaks space .word rest = rest) :
      collapseFrom blank breaks space .word (c :: rest) = c :: rest := by
    rw [collapseFrom, if_neg stays, kept]
  induction text generalizing place with
  | nil => cases place <;> rfl
  | cons c rest ih =>
    cases place <;> rw [collapseFrom] <;> split
    next => exact ih _
    next stays => exact solid stays (ih .word)
    next => exact ih _
    next stays =>
      rw [collapseFrom, if_pos blankSpace, if_neg (by rw [wholeSpace]; decide), collapseFrom, if_neg stays, ih .word]
    next => exact ih _
    next stays => exact solid stays (ih .word)

theorem collapse_collapse (text : List α) :
    collapse blank breaks space (collapse blank breaks space text) = collapse blank breaks space text := by
  rw [← collapseFrom_dropped, ← collapseFrom_dropped]
  induction text with
  | nil => rfl
  | cons c rest ih =>
    by_cases blankFirst : blank c = true
    · rw [collapseFrom, if_pos blankFirst]
      exact ih
    · rw [collapseFrom, if_neg blankFirst, collapseFrom, if_neg blankFirst,
        collapseFrom_word_collapseFrom blankSpace wholeSpace]

end Idempotent

/-! ### The length of the output -/

theorem countP_dropWhile (text : List α) :
    (text.dropWhile blank).countP (fun c => !blank c) = text.countP (fun c => !blank c) := by
  induction text with
  | nil => rfl
  | cons c rest ih =>
    by_cases blankFirst : blank c = true
    · rw [List.dropWhile_cons_of_pos blankFirst, ih, List.countP_cons_of_neg (by rw [blankFirst]; decide)]
    · rw [List.dropWhile_cons_of_neg blankFirst]

theorem countP_trimEnds (text : List α) :
    (trimEnds blank text).countP (fun c => !blank c) = text.countP (fun c => !blank c) := by
  rw [trimEnds, List.rdropWhile, List.countP_reverse, countP_dropWhile, List.countP_reverse, countP_dropWhile]

theorem length_squeezeRuns (text : List α) :
    (squeezeRuns blank breaks space text).length =
      text.countP (fun c => !blank c) + spacesLeft blank breaks space text := by
  induction text using squeezeRuns.induct blank with
  | case1 => rw [squeezeRuns, spacesLeft, List.length_nil, List.countP_nil]
  | case2 c rest blankFirst ih =>
    rw [squeezeRuns, if_pos blankFirst, spacesLeft, if_pos blankFirst, List.length_append, ih, countP_dropWhile,
      List.countP_cons_of_neg (by rw [blankFirst]; decide)]
    omega
  | case3 c rest stays ih =>
    rw [squeezeRuns, if_neg stays, spacesLeft, if_neg stays, List.length_cons, ih,
      List.countP_cons_of_pos (by rw [Bool.eq_false_iff.mpr stays]; rfl)]
    omega

theorem length_collapse (text : List α) :
    (collapse blank breaks space text).length =
      text.countP (fun c => !blank c) + spacesLeft blank breaks space (trimEnds blank text) := by
  rw [collapse, length_squeezeRuns, countP_trimEnds]

/-- The text ends with a blank. -/
def endsBlank (blank : α → Bool) (text : List α) : Bool := text.getLast?.any blank

theorem endsBlank_cons (c : α) (rest : List α) :
    endsBlank blank (c :: rest) = if rest = [] then blank c else endsBlank blank rest := by
  cases rest with
  | nil => rfl
  | cons d rest => rw [endsBlank, List.getLast?_cons_cons, if_neg (List.cons_ne_nil d rest), endsBlank]

theorem endsBlank_collapseFrom (place : Place) (text : List α) :
    endsBlank blank (collapseFrom blank breaks space place text) = false := by
  have solid {c : α} {rest : List α} (stays : ¬ blank c = true) (ends : endsBlank blank rest = false) :
      endsBlank blank (c :: rest) = false := by
    rw [endsBlank_cons]
    split
    next => exact Bool.eq_false_iff.mpr stays
    next => exact ends
  induction text generalizing place with
  | nil => cases place <;> rfl
  | cons c rest ih =>
    cases place <;> rw [collapseFrom] <;> split
    next => exact ih _
    next stays => exact solid stays (ih .word)
    next => exact ih _
    next stays =>
      rw [endsBlank_cons, if_neg (List.cons_ne_nil _ _)]
      exact solid stays (ih .word)
    next => exact ih _
    next stays => exact solid stays (ih .word)

/-- How far the output reaches at most while the rest of the text is read, when the space of a run is written at its
first blank and taken back at a break or at the end. -/
def reach (blank breaks : α → Bool) : Place → List α → Nat
  | .word, [] => 0
  | .gap, [] => 1
  | .dropped, [] => 0
  | .word, c :: rest => if blank c then max 1 (reach blank breaks (if breaks c then .dropped else .gap) rest)
    else 1 + reach blank breaks .word rest
  | .gap, c :: rest => if blank c then max 1 (reach blank breaks (if breaks c then .dropped else .gap) rest)
    else 2 + reach blank breaks .word rest
  | .dropped, c :: rest => if blank c then reach blank breaks .dropped rest else 1 + reach blank breaks .word rest

theorem length_collapseFrom_pos (place : Place) {text : List α} (some : text ≠ []) :
    1 ≤ (collapseFrom blank breaks space place text).length + (endsBlank blank text).toNat := by
  induction text generalizing place with
  | nil => exact absurd rfl some
  | cons c rest ih =>
    by_cases blankFirst : blank c = true
    · rw [endsBlank_cons]
      split
      next =>
        rw [blankFirst]
        exact Nat.le_add_left 1 _
      next more => cases place <;> rw [collapseFrom, if_pos blankFirst] <;> exact ih _ more
    · cases place <;> rw [collapseFrom, if_neg blankFirst] <;>
        exact (Nat.succ_le_succ (Nat.zero_le _)).trans (Nat.le_add_right _ _)

theorem reach_eq (space : α) (text : List α) :
    let far (place : Place) := (collapseFrom blank breaks space place text).length + (endsBlank blank text).toNat
    reach blank breaks .word text = far .word ∧ reach blank breaks .gap text = max 1 (far .gap) ∧
      max 1 (reach blank breaks .dropped text) = max 1 (far .dropped) := by
  induction text with
  | nil => exact ⟨rfl, rfl, rfl⟩
  | cons c rest ih =>
    obtain ⟨word, inGap, inDropped⟩ := ih
    by_cases blankFirst : blank c = true
    · have next : max 1 (reach blank breaks (if breaks c then .dropped else .gap) rest) =
          max 1 ((collapseFrom blank breaks space (if breaks c then .dropped else .gap) rest).length +
            (endsBlank blank rest).toNat) := by
        split
        next => exact inDropped
        next => rw [inGap, ← max_assoc, max_self]
      simp only [collapseFrom, reach, if_pos blankFirst]
      rw [next, endsBlank_cons]
      by_cases last : rest = []
      · subst last
        rw [if_pos rfl, blankFirst]
        split <;> exact ⟨rfl, rfl, rfl⟩
      · rw [if_neg last]
        exact ⟨max_eq_right (length_collapseFrom_pos _ last), rfl, inDropped⟩
    · have ends : endsBlank blank (c :: rest) = endsBlank blank rest := by
        rw [endsBlank_cons]
        split
        next last =>
          rw [last]
          exact Bool.eq_false_iff.mpr blankFirst
        next => rfl
      simp only [collapseFrom, reach, if_neg blankFirst, word, ends, List.length_cons]
      omega

end Libchrome.Library.Collapsing
