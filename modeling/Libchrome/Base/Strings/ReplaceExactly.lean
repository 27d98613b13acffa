import Libchrome.Base.Strings.ReplaceBackwards

/-! When the replacement of substrings is that from left to right. -/

namespace Libchrome.Base.Strings
open Library.Searching Library.Replacing

section Matches
variable {α : Type} [DecidableEq α] (text find rep : List α) (offset : Nat)

/-- From an offset on, all occurrences (or the first one) that do not overlap, replaced from left to right. -/
def replaced (all : Bool) : List α := text.take offset ++ replaceLeftToRight all find rep 0 (text.drop offset)

/-- The matches from left to right; `npos` behind the last. -/
def nthMatch : Nat → Nat
  | 0 => stdFind text find offset
  | j + 1 => stdFind text find (nthMatch j + find.length)

/-- Between a match and the next one begins another occurrence, in the text up to the place where the replacement of that
next match comes to lie, and this replacement. -/
def StrayAt (j : Nat) : Prop :=
  nthMatch text find offset (j + 1) ≠ npos ∧
    ∃ p, nthMatch text find offset j < p ∧ p < nthMatch text find offset (j + 1) ∧
      matchesAt (text.take (nthMatch text find offset (j + 1) + (j + 1) * (rep.length - find.length)) ++ rep) find p = true

end Matches

variable {α : Type} [DecidableEq α] {maxSize : MaxSize} {text find rep : List α} {offset : Nat} (some_ : find ≠ [])
  (fits : text.length ≤ maxSize.value)

include some_ fits in
theorem nthMatch_succ (j : Nat) : nthMatch text find offset (j + 1) ≠ npos →
    nthMatch text find offset j ≠ npos ∧
      Found text find (nthMatch text find offset j + find.length) (nthMatch text find offset (j + 1)) := by
  intro further
  have limit := maxSize.below
  have short : text.length < npos := by
    rw [npos]
    omega
  rw [nthMatch] at further ⊢
  rcases stdFind_found_or some_ short (nthMatch text find offset j + find.length) with ⟨none, _⟩ | ⟨_, found⟩
  · exact absurd none further
  · refine ⟨fun none => ?_, found⟩
    rw [none] at found
    have above := found.above
    have within := found.within
    omega

/-- The number of matches, and the facts on them. -/
structure Matches (text find : List α) (offset count : Nat) : Prop where
  first : Found text find offset (nthMatch text find offset 0)
  next : ∀ j, j + 1 < count →
    Found text find (nthMatch text find offset j + find.length) (nthMatch text find offset (j + 1))
  last : nthMatch text find offset count = npos
  absent : ∀ j, j + 1 = count → ¬ find <:+: text.drop (nthMatch text find offset j + find.length)

section Growing
variable {count e : Nat} (matches_ : Matches text find offset count) (length : rep.length = find.length + e)
include matches_

/-- Where what is moved behind a match ends. -/
def bound (text find : List α) (offset j : Nat) : Nat := min (nthMatch text find offset j) text.length

variable {j : Nat}

theorem Matches.within (inside : j < count) :
    nthMatch text find offset j + find.length ≤ text.length ∧ matchesAt text find (nthMatch text find offset j) = true := by
  cases j with
  | zero => exact ⟨matches_.first.within, matches_.first.matched⟩
  | succ j => exact ⟨(matches_.next j inside).within, (matches_.next j inside).matched⟩

theorem Matches.bound_of_lt (inside : j < count) : bound text find offset j = nthMatch text find offset j := by
  have within := (matches_.within inside).1
  exact Nat.min_eq_left (by omega)

theorem Matches.first_le (inside : j < count) : nthMatch text find offset 0 ≤ nthMatch text find offset j := by
  induction j with
  | zero => exact le_rfl
  | succ j ih =>
    have above := (matches_.next j inside).above
    have before := ih (by omega)
    omega

include fits

theorem Matches.bound_of_count : bound text find offset count = text.length := by
  have limit := maxSize.below
  rw [bound, matches_.last, npos]
  omega

theorem Matches.apart (inside : j < count) :
    nthMatch text find offset j + find.length ≤ bound text find offset (j + 1) ∧
      bound text find offset (j + 1) ≤ text.length := by
  refine ⟨?_, Nat.min_le_right _ _⟩
  by_cases more : j + 1 < count
  · rw [matches_.bound_of_lt more]
    exact (matches_.next j more).above
  · rw [show j + 1 = count by omega, matches_.bound_of_count fits]
    exact (matches_.within inside).1

include some_

/-- What is replaced from a match on. -/
theorem Matches.tail_eq (inside : j < count) :
    replaceLeftToRight true find rep 0 (text.drop (nthMatch text find offset j)) =
      rep ++ ((text.drop (nthMatch text find offset j + find.length)).take
        (bound text find offset (j + 1) - (nthMatch text find offset j + find.length)) ++
          replaceLeftToRight true find rep 0 (text.drop (bound text find offset (j + 1)))) := by
  rw [replaceLeftToRight_at some_ (matches_.within inside).2, if_pos rfl]
  by_cases more : j + 1 < count
  · rw [(matches_.next j more).replace, matches_.bound_of_lt more]
  · have last : j + 1 = count := by omega
    rw [replaceLeftToRight_of_absent (matches_.absent j last), last, matches_.bound_of_count fits, List.drop_length,
      replaceLeftToRight, List.append_nil, List.take_of_length_le (by rw [List.length_drop])]

include length

theorem Matches.length_tail (inside : j ≤ count) :
    (replaceLeftToRight true find rep 0 (text.drop (bound text find offset j))).length + bound text find offset j =
      text.length + (count - j) * e := by
  induction left : count - j generalizing j with
  | zero =>
    rw [show j = count by omega, matches_.bound_of_count fits, List.drop_length, replaceLeftToRight, Nat.zero_mul,
      List.length_nil, Nat.zero_add, Nat.add_zero]
  | succ n ih =>
    have before : j < count := by omega
    obtain ⟨apart, within⟩ := matches_.apart fits before
    have rest := ih (by omega) (show count - (j + 1) = n by omega)
    rw [matches_.bound_of_lt before, matches_.tail_eq some_ fits before, Nat.succ_mul]
    simp only [List.length_append, List.length_take, List.length_drop]
    omega

theorem Matches.drop_replaced (inside : j < count) :
    (replaced text find rep offset true).drop (nthMatch text find offset j + j * e) =
      replaceLeftToRight true find rep 0 (text.drop (nthMatch text find offset j)) := by
  induction j with
  | zero =>
    have within := matches_.first.within
    rw [replaced, ← matches_.first.take_append, Nat.zero_mul, Nat.add_zero]
    exact List.drop_left' (by rw [List.length_take, Nat.min_eq_left (by omega)])
  | succ j ih =>
    have before : j < count := by omega
    obtain ⟨apart, within⟩ := matches_.apart fits before
    have rest := ih before
    rw [matches_.bound_of_lt inside] at apart within
    have moved : (rep ++ (text.drop (nthMatch text find offset j + find.length)).take
        (nthMatch text find offset (j + 1) - (nthMatch text find offset j + find.length))).length =
        nthMatch text find offset (j + 1) + (j + 1) * e - (nthMatch text find offset j + j * e) := by
      rw [List.length_append, List.length_take, List.length_drop, Nat.succ_mul]
      omega
    have further : nthMatch text find offset (j + 1) + (j + 1) * e = nthMatch text find offset j + j * e +
        (nthMatch text find offset (j + 1) + (j + 1) * e - (nthMatch text find offset j + j * e)) := by
      rw [Nat.succ_mul]
      omega
    rw [matches_.tail_eq some_ fits before, matches_.bound_of_lt inside] at rest
    rw [further, ← List.drop_drop, rest, ← List.append_assoc]
    exact List.drop_left' moved

theorem Matches.expandStep_at (inside : j < count) {str : List α} (size : str.length ≤ maxSize.value)
    (unwritten : Unwritten text str (bound text find offset (j + 1) + (j + 1) * e))
    (written : str.drop (bound text find offset (j + 1) + (j + 1) * e) =
      replaceLeftToRight true find rep 0 (text.drop (bound text find offset (j + 1)))) :
    ∃ str', expandStep maxSize find rep str (bound text find offset (j + 1))
        (bound text find offset (j + 1) + (j + 1) * e) (nthMatch text find offset j) =
          some (str', nthMatch text find offset j + j * e) ∧
      Unwritten text str' (nthMatch text find offset j + j * e) ∧ str'.length = str.length ∧
      str'.drop (nthMatch text find offset j + j * e) =
        replaceLeftToRight true find rep 0 (text.drop (nthMatch text find offset j)) := by
  have limit := maxSize.below
  obtain ⟨apart, within⟩ := matches_.apart fits inside
  have left := unwritten.inside
  rw [Nat.succ_mul] at *
  obtain ⟨step, steps⟩ := @expandStep_eq α maxSize find rep str _ _ _ size left (by omega) apart (by omega)
  have expanded := expanded_of_expandStep left steps
  rw [sizeAdd_of_lt (by omega)] at expanded
  have room := expanded.room
  have place : step.2 = nthMatch text find offset j + j * e := by omega
  have drop := expanded.drop left
  have unwritten' := expanded.unwritten unwritten
  rw [unwritten.take_drop (by omega) within, written, ← matches_.tail_eq some_ fits inside] at drop
  rw [place] at drop unwritten'
  exact ⟨step.1, by rw [steps, ← place], unwritten', expanded.length, drop⟩

theorem Matches.strayAt_iff (inside : j + 1 < count) {str : List α}
    (unwritten : Unwritten text str (nthMatch text find offset (j + 1) + (j + 1) * e))
    (written : str.drop (nthMatch text find offset (j + 1) + (j + 1) * e) =
      replaceLeftToRight true find rep 0 (text.drop (nthMatch text find offset (j + 1)))) :
    StrayAt text find rep offset j ↔
      ∃ p, nthMatch text find offset j < p ∧ p < nthMatch text find offset (j + 1) ∧ matchesAt str find p = true := by
  have limit := maxSize.below
  have growth : rep.length - find.length = e := by omega
  obtain ⟨within, matched⟩ := matches_.within inside
  have tail := @replaceLeftToRight_at α _ text find rep true _ some_ matched
  rw [← written] at tail
  rw [StrayAt, growth]
  generalize nthMatch text find offset (j + 1) = q at *
  generalize place : q + (j + 1) * e = w at *
  have left := unwritten.inside
  have same {p : Nat} (below : p < q) : matchesAt (text.take w ++ rep) find p = true ↔ matchesAt str find p = true := by
    rw [matchesAt_iff_getElem, matchesAt_iff_getElem]
    apply forall₂_congr
    intro t inside
    by_cases early : p + t < w
    · rw [unwritten.same _ early (by omega), List.getElem?_append_left (by rw [List.length_take]; omega),
        List.getElem?_take_of_lt early]
    · have front : (text.take w).length = w := by rw [List.length_take, Nat.min_eq_left (by omega)]
      have here : str[p + t]? = (str.drop w)[p + t - w]? := by
        rw [List.getElem?_drop, Nat.add_sub_cancel' (not_lt.mp early)]
      rw [here, tail, List.getElem?_append_right (front.trans_le (not_lt.mp early)), front,
        List.getElem?_append_left (by omega)]
  constructor
  · rintro ⟨_, p, above, below, stray⟩
    exact ⟨p, above, below, (same below).mp stray⟩
  · rintro ⟨p, above, below, stray⟩
    exact ⟨by rw [npos]; omega, p, above, below, (same below).mpr stray⟩

theorem Matches.expandLoop_iff (inside : j < count) {fuel : Nat} (enough : nthMatch text find offset j < fuel)
    {str : List α} (size : str.length ≤ maxSize.value)
    (unwritten : Unwritten text str (bound text find offset (j + 1) + (j + 1) * e))
    (written : str.drop (bound text find offset (j + 1) + (j + 1) * e) =
      replaceLeftToRight true find rep 0 (text.drop (bound text find offset (j + 1)))) :
    expandLoop maxSize find rep (nthMatch text find offset 0) fuel str (bound text find offset (j + 1))
        (bound text find offset (j + 1) + (j + 1) * e) (nthMatch text find offset j) =
      some (replaced text find rep offset true) ↔ ∀ i < j, ¬ StrayAt text find rep offset i := by
  have limit := maxSize.below
  induction j generalizing fuel str with
  | zero =>
    obtain ⟨fuel, rfl⟩ : ∃ more, fuel = more + 1 := ⟨fuel - 1, by omega⟩
    obtain ⟨str', steps, unwritten', _, written'⟩ := matches_.expandStep_at some_ fits length inside size unwritten written
    have within := matches_.first.within
    rw [expandLoop, steps, Option.bind_some, if_pos rfl]
    refine iff_of_true ?_ fun i none => absurd none (Nat.not_lt_zero i)
    rw [Nat.zero_mul, Nat.add_zero] at unwritten' written'
    have front := unwritten'.take_drop (i := 0) le_rfl (by omega)
    rw [Nat.sub_zero, List.drop_zero, List.drop_zero] at front
    rw [replaced, ← matches_.first.take_append, ← written', ← front, List.take_append_drop]
  | succ j ih =>
    obtain ⟨fuel, rfl⟩ : ∃ more, fuel = more + 1 := ⟨fuel - 1, by omega⟩
    obtain ⟨str', steps, unwritten', size', written'⟩ :=
      matches_.expandStep_at some_ fits length inside size unwritten written
    have before : j < count := by omega
    have apart := (matches_.next j inside).above
    have within := (matches_.within inside).1
    have ordered := matches_.first_le before
    have findPositive := List.length_pos_iff.mpr some_
    rw [expandLoop, steps, Option.bind_some, if_neg (by omega), checkedSub_of_le (by omega), Option.bind_some]
    dsimp only
    have here := matches_.bound_of_lt inside
    have stray := matches_.strayAt_iff some_ fits length inside unwritten' written'
    have matched : matchesAt str' find (nthMatch text find offset j) = true :=
      (unwritten'.matchesAt_iff (by omega) (by omega)).mpr (matches_.within before).2
    have split : (∀ i < j + 1, ¬ StrayAt text find rep offset i) ↔
        (∀ i < j, ¬ StrayAt text find rep offset i) ∧ ¬ StrayAt text find rep offset j := Nat.forall_lt_succ_right
    rcases @stdRfind_cases α _ str' find some_ (nthMatch text find offset (j + 1) - 1) with
      ⟨_, absent⟩ | ⟨le, _, found, last⟩
    · rw [absent _ (by omega)] at matched
      cases matched
    · generalize stdRfind str' find (nthMatch text find offset (j + 1) - 1) = p at *
      by_cases aligned : p = nthMatch text find offset j
      · subst aligned
        rw [← here] at unwritten' written'
        have next := @ih before fuel (by omega) str' (by omega) unwritten' written'
        rw [here] at next
        have clear : ¬ StrayAt text find rep offset j := by
          rw [stray]
          rintro ⟨p, above, below, strays⟩
          rw [last p above (by omega)] at strays
          cases strays
        rw [split]
        exact next.trans (and_iff_left clear).symm
      · have above : nthMatch text find offset j < p := by
          by_contra before
          rw [last _ (by omega) (by omega)] at matched
          cases matched
        have strays := stray.mpr ⟨p, above, by omega, found⟩
        have naive := matches_.drop_replaced some_ fits length before
        rw [matches_.tail_eq some_ fits before, here] at naive
        obtain ⟨d, rfl⟩ : ∃ d, p = nthMatch text find offset j + d := ⟨p - nthMatch text find offset j, by omega⟩
        refine iff_of_false ?_ fun none => none j j.lt_succ_self strays
        exact expandLoop_astray some_ length (by omega) fits unwritten' (matches_.within before).2
          (matches_.next j inside).clear within ordered (by omega) (by omega) found written' naive

end Growing

/-! ### Counting the matches -/

section Counting
include some_ fits

theorem nthMatch_within {j : Nat} (further : nthMatch text find offset j ≠ npos) :
    nthMatch text find offset j + find.length ≤ text.length := by
  have limit := maxSize.below
  cases j with
  | zero =>
    rcases @stdFind_found_or α _ text find some_ (by rw [npos]; omega) offset with ⟨none, _⟩ | ⟨_, found⟩
    · exact absurd none further
    · exact found.within
  | succ j => exact (nthMatch_succ some_ fits j further).2.within

theorem nthMatch_ne_of_le {i j : Nat} (le : i ≤ j) (further : nthMatch text find offset j ≠ npos) :
    nthMatch text find offset i ≠ npos := by
  induction le with
  | refl => exact further
  | step _ ih => exact ih (nthMatch_succ some_ fits _ further).1

theorem countMatches_eq {e : Nat} (fuel j finalLength : Nat) (further : nthMatch text find offset j ≠ npos)
    (enough : text.length < fuel + nthMatch text find offset j) :
    ∃ n, nthMatch text find offset (j + n) ≠ npos ∧ nthMatch text find offset (j + n + 1) = npos ∧
      countMatches find text e fuel finalLength (nthMatch text find offset j) =
        some ((finalLength + (n + 1) * e) % 2 ^ 64, nthMatch text find offset (j + n)) := by
  have limit := maxSize.below
  have positive := List.length_pos_iff.mpr some_
  induction fuel generalizing j finalLength with
  | zero =>
    have within := nthMatch_within some_ fits further
    omega
  | succ fuel ih =>
    have within := nthMatch_within some_ fits further
    rw [countMatches, sizeAdd_of_lt (by omega)]
    by_cases last : stdFind text find (nthMatch text find offset j + find.length) = npos
    · refine ⟨0, further, last, ?_⟩
      rw [if_pos last, sizeAdd, Nat.zero_add, Nat.one_mul, Nat.add_zero]
    · have next : nthMatch text find offset (j + 1) ≠ npos := last
      have above := (nthMatch_succ some_ fits j next).2.above
      obtain ⟨n, more, done, counted⟩ := ih (j + 1) (sizeAdd finalLength e) next (by omega)
      rw [Nat.add_right_comm j 1 n] at more done counted
      refine ⟨n + 1, more, done, ?_⟩
      rw [nthMatch] at counted
      rw [if_neg last, counted, sizeAdd, Nat.mod_add_mod, Nat.succ_mul (n + 1), Nat.add_assoc, Nat.add_comm e,
        ← Nat.add_assoc j]

theorem exists_matches (further : stdFind text find offset ≠ npos) (e : Nat) :
    ∃ n, Matches text find offset (n + 1) ∧
      countMatches find text e (text.length + 1) text.length (stdFind text find offset) =
        some ((text.length + (n + 1) * e) % 2 ^ 64, nthMatch text find offset n) := by
  have limit := maxSize.below
  have short : text.length < npos := by
    rw [npos]
    omega
  obtain ⟨n, more, done, counted⟩ := @countMatches_eq α _ maxSize text find offset some_ fits e (text.length + 1) 0
    text.length further (by omega)
  rw [Nat.zero_add] at more done counted
  refine ⟨n, ⟨?_, fun j inside => ?_, done, fun j last => ?_⟩, counted⟩
  · rcases stdFind_found_or some_ short offset with ⟨none, _⟩ | ⟨_, found⟩
    · exact absurd none further
    · exact found
  · exact (nthMatch_succ some_ fits j (nthMatch_ne_of_le some_ fits (by omega) more)).2
  · obtain rfl : j = n := by omega
    rcases stdFind_found_or some_ short (nthMatch text find offset j + find.length) with ⟨_, absent⟩ | ⟨some', _⟩
    · exact absent
    · exact absurd done some'

end Counting

/-! ### The functions -/

section Functions
variable [Zero α]

omit [DecidableEq α] in
theorem length_of_stdResize {n : Nat} {grown : List α} (resized : stdResize maxSize text n = some grown) :
    grown.length = n ∧ n ≤ maxSize.value ∧ grown = text.take n ++ List.replicate (n - text.length) 0 := by
  rw [stdResize] at resized
  split at resized
  next le =>
    cases resized
    refine ⟨?_, le, rfl⟩
    rw [List.length_append, List.length_take, List.length_replicate]
    omega
  next => cases resized

include some_ fits

theorem expand_iff (found : stdFind text find offset ≠ npos) (longer : find.length < rep.length) :
    ((countMatches find text (rep.length - find.length) (text.length + 1) text.length (stdFind text find offset)).bind
        fun counted => (stdResize maxSize text counted.1).bind fun grown =>
          expandLoop maxSize find rep (stdFind text find offset) (text.length + 3) grown text.length counted.1 counted.2) =
        some (replaced text find rep offset true) ↔
      (replaced text find rep offset true).length ≤ maxSize.value ∧ ∀ j, ¬ StrayAt text find rep offset j := by
  have limit := maxSize.below
  obtain ⟨n, matches_, counted⟩ := exists_matches some_ fits found (rep.length - find.length)
  generalize growth : rep.length - find.length = e at *
  have length : rep.length = find.length + e := by omega
  have total : (replaced text find rep offset true).length = text.length + (n + 1) * e := by
    have tail := matches_.length_tail some_ fits length (Nat.zero_le _)
    have within := matches_.first.within
    rw [matches_.bound_of_lt n.succ_pos, Nat.sub_zero] at tail
    rw [replaced, ← matches_.first.take_append, List.length_append, List.length_take]
    omega
  rw [counted, Option.bind_some, total]
  dsimp only
  cases resized : stdResize maxSize text ((text.length + (n + 1) * e) % 2 ^ 64) with
  | none =>
    refine iff_of_false (fun none => by cases none) fun room => ?_
    rw [stdResize, Nat.mod_eq_of_lt (by omega), if_pos room.1] at resized
    cases resized
  | some grown =>
    obtain ⟨size, le, shape⟩ := length_of_stdResize resized
    rw [Option.bind_some]
    by_cases room : text.length + (n + 1) * e ≤ maxSize.value
    · rw [Nat.mod_eq_of_lt (by omega)] at *
      have end_ := matches_.bound_of_count fits
      have within := (matches_.within n.lt_succ_self).1
      have start : text.take (text.length + (n + 1) * e) = text := List.take_of_length_le (by omega)
      have unwritten : Unwritten text grown (bound text find offset (n + 1) + (n + 1) * e) := by
        rw [end_]
        refine ⟨size.ge, fun i _ inside => ?_⟩
        rw [shape, start, List.getElem?_append_left inside]
      have written : grown.drop (bound text find offset (n + 1) + (n + 1) * e) =
          replaceLeftToRight true find rep 0 (text.drop (bound text find offset (n + 1))) := by
        rw [end_, List.drop_eq_nil_of_le size.le, List.drop_length, replaceLeftToRight]
      have exactly := matches_.expandLoop_iff some_ fits length n.lt_succ_self
        (show nthMatch text find offset n < text.length + 3 by omega) (by omega) unwritten written
      rw [end_] at exactly
      refine exactly.trans ⟨fun none => ⟨room, fun j => ?_⟩, fun none j _ => none.2 j⟩
      by_cases before : j < n
      · exact none j before
      · rintro ⟨further, _⟩
        exact nthMatch_ne_of_le some_ fits (show n + 1 ≤ j + 1 by omega) further matches_.last
    · refine iff_of_false (fun runs => ?_) fun fitting => room fitting.1
      have kept := (expandLoop_keeps _ size.ge runs).1
      omega

omit [Zero α] some_ fits in
theorem replaced_of_absent {all : Bool} (absent : ¬ find <:+: text.drop offset) :
    replaced text find rep offset all = text := by
  rw [replaced, replaceLeftToRight_of_absent absent, List.take_append_drop]

omit [Zero α] in
theorem length_replaced_le {all : Bool} (shorter : rep.length ≤ find.length) :
    (replaced text find rep offset all).length ≤ maxSize.value := by
  have less := @length_replaceLeftToRight_le α _ all find rep some_ shorter (text.drop offset)
  rw [List.length_drop] at less
  rw [replaced, List.length_append, List.length_take]
  by_cases inside : offset ≤ text.length
  · omega
  · omega

omit fits in
theorem replaceFirst_iff (str : StdString α maxSize) (findThis replaceWith : BasicStringPiece α)
    (chars : findThis.chars = find) :
    replaceFirstSubstringAfterOffset maxSize str.chars offset findThis replaceWith =
        some (replaced str.chars find replaceWith.chars offset false) ↔
      (replaced str.chars find replaceWith.chars offset false).length ≤ maxSize.value := by
  have fits := str.fits
  have limit := maxSize.below
  rw [replaceFirstSubstringAfterOffset, doReplaceSubstringsAfterOffset, chars]
  rcases @stdFind_found_or α _ str.chars find some_ (by rw [npos]; omega) offset with ⟨none, absent⟩ | ⟨some', found⟩
  · rw [if_pos none, replaced_of_absent absent]
    exact iff_of_true rfl fits
  · have within := found.within
    have result : replaced str.chars find replaceWith.chars offset false =
        str.chars.take (stdFind str.chars find offset) ++
          (replaceWith.chars ++ str.chars.drop (stdFind str.chars find offset + find.length)) := by
      rw [replaced, ← found.take_append, replaceLeftToRight_at some_ found.matched, if_neg (by decide)]
    rw [if_neg some', if_pos (by decide), stdReplace, if_neg (by omega), result]
    dsimp only
    by_cases room : (str.chars.take (stdFind str.chars find offset) ++
        (replaceWith.chars ++ str.chars.drop (stdFind str.chars find offset + find.length))).length ≤ maxSize.value
    · rw [if_pos room]
      exact iff_of_true rfl room
    · rw [if_neg room]
      exact iff_of_false (fun none => by cases none) room

omit fits in
theorem replaceAll_iff (str : StdString α maxSize) (findThis replaceWith : BasicStringPiece α)
    (chars : findThis.chars = find) :
    replaceSubstringsAfterOffset maxSize str.chars offset findThis replaceWith =
        some (replaced str.chars find replaceWith.chars offset true) ↔
      (replaced str.chars find replaceWith.chars offset true).length ≤ maxSize.value ∧
        (findThis.size < replaceWith.size → ∀ j, ¬ StrayAt str.chars find replaceWith.chars offset j) := by
  have fits := str.fits
  have limit := maxSize.below
  have size := findThis.length_chars
  have size' := replaceWith.length_chars
  rw [replaceSubstringsAfterOffset, doReplaceSubstringsAfterOffset, ← size, ← size', chars]
  generalize replaceWith.chars = rep at *
  rcases @stdFind_found_or α _ str.chars find some_ (by rw [npos]; omega) offset with ⟨none, absent⟩ | ⟨some', found⟩
  · rw [if_pos none, replaced_of_absent absent]
    refine iff_of_true rfl ⟨fits, fun _ j stray => ?_⟩
    exact nthMatch_ne_of_le some_ fits (Nat.zero_le _) stray.1 none
  · rw [if_neg some', if_neg (by decide)]
    by_cases longer : find.length < rep.length
    · rw [if_neg longer.ne, if_neg (by omega), expand_iff some_ fits some' longer]
      exact and_congr_right fun _ => ⟨fun none _ => none, fun none => none longer⟩
    · have le := @length_replaced_le α _ maxSize str.chars find rep offset some_ fits true (by omega)
      refine iff_of_true ?_ ⟨le, fun more => absurd more longer⟩
      rw [replaced, ← found.take_append]
      by_cases same : find.length = rep.length
      · rw [if_pos same]
        exact replaceEqual_eq some_ same _ fits found.matched (by omega)
      · rw [if_neg same, if_pos (by omega)]
        exact shrinkLoop_eq some_ (by omega) _ fits found.matched le_rfl (by omega)

end Functions

theorem replaceSubstringsAfterOffset_iff {α : Type} [DecidableEq α] [Zero α] (maxSize : MaxSize)
    (str : StdString α maxSize) (startOffset : Nat) (findThis replaceWith : BasicStringPiece α)
    (some_ : findThis.size ≠ 0) :
    (replaceFirstSubstringAfterOffset maxSize str.chars startOffset findThis replaceWith =
        some (replaced str.chars findThis.chars replaceWith.chars startOffset false) ↔
      (replaced str.chars findThis.chars replaceWith.chars startOffset false).length ≤ maxSize.value) ∧
    (replaceSubstringsAfterOffset maxSize str.chars startOffset findThis replaceWith =
        some (replaced str.chars findThis.chars replaceWith.chars startOffset true) ↔
      (replaced str.chars findThis.chars replaceWith.chars startOffset true).length ≤ maxSize.value ∧
        (findThis.size < replaceWith.size →
          ∀ j, ¬ StrayAt str.chars findThis.chars replaceWith.chars startOffset j)) := by
  have some' : findThis.chars ≠ [] := fun none => some_ (findThis.chars_eq_nil_iff.mp none)
  exact ⟨replaceFirst_iff some' str findThis replaceWith rfl, replaceAll_iff some' str findThis replaceWith rfl⟩

def longest : MaxSize := ⟨2 ^ 63 - 1, by decide⟩

/-- `a` in `aba`, replaced once by `cc`. -/
theorem replaceFirst_aba : replaceFirstSubstringAfterOffset longest [0x61, 0x62, 0x61] 0
    (ofString ([0x61] : List (BitVec 8)) (by decide)) (ofString [0x63, 0x63] (by decide)) =
      some [0x63, 0x63, 0x62, 0x61] :=
  (replaceSubstringsAfterOffset_iff longest ⟨[0x61, 0x62, 0x61], by decide⟩ 0
    (ofString ([0x61] : List (BitVec 8)) (by decide)) (ofString [0x63, 0x63] (by decide)) (by decide)).1.mpr (by decide)

/-- `aa` in `aaabaa`, replaced by `ccc`. -/
theorem replaceAll_goes_astray : replaceSubstringsAfterOffset longest [0x61, 0x61, 0x61, 0x62, 0x61, 0x61] 0
    (ofString ([0x61, 0x61] : List (BitVec 8)) (by decide)) (ofString [0x63, 0x63, 0x63] (by decide)) ≠
      some (replaced [0x61, 0x61, 0x61, 0x62, 0x61, 0x61] [0x61, 0x61] [0x63, 0x63, 0x63] 0 true) := by
  decide +kernel

end Libchrome.Base.Strings
