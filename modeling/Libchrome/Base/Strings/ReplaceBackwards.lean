import Libchrome.Base.Strings.ReplaceForwards

/-! The replacement of substrings by longer ones, which works backwards with `rfind`. -/

namespace Libchrome.Base.Strings
open Library.Searching Library.Replacing

variable {α : Type} [DecidableEq α] {maxSize : MaxSize} {find rep : List α}

/-! ### A round of the loop -/

variable {text result : List α}

omit [DecidableEq α] in
theorem of_stdReplace {s : List α} {pos n : Nat} (replaced : stdReplace maxSize text pos n s = some result) :
    result = text.take pos ++ (s ++ text.drop (pos + n)) := by
  rw [stdReplace] at replaced
  split at replaced
  next => cases replaced
  next =>
    dsimp only at replaced
    split at replaced
    next => exact (Option.some.inj replaced).symm
    next => cases replaced

theorem of_checkedSub {a b c : Nat} (difference : checkedSub a b = some c) : b ≤ a ∧ c = a - b := by
  rw [checkedSub] at difference
  split at difference
  next le => exact ⟨le, (Option.some.inj difference).symm⟩
  next => cases difference

/-- A round that succeeds has room for what it moves and writes, and leaves the rest as it is. -/
structure Expanded (rep str : List α) (prevMatch writeOffset readOffset : Nat) (str' : List α) (writeOffset' : Nat) :
    Prop where
  apart : readOffset ≤ prevMatch
  room : writeOffset' + rep.length + (prevMatch - readOffset) = writeOffset
  length : str'.length = str.length
  text : str' = str.take writeOffset' ++
    (rep ++ ((str.drop readOffset).take (prevMatch - readOffset) ++ str.drop writeOffset))

variable {str : List α} {prevMatch writeOffset currentMatch : Nat}

omit [DecidableEq α] in
theorem expanded_of_expandStep {step : List α × Nat} (inside : writeOffset ≤ str.length)
    (steps : expandStep maxSize find rep str prevMatch writeOffset currentMatch = some step) :
    Expanded rep str prevMatch writeOffset (sizeAdd currentMatch find.length) step.1 step.2 := by
  rw [expandStep] at steps
  generalize sizeAdd currentMatch find.length = readOffset at *
  obtain ⟨length, difference, steps⟩ := Option.bind_eq_some_iff.mp steps
  obtain ⟨write, moved, steps⟩ := Option.bind_eq_some_iff.mp steps
  obtain ⟨text, moves, steps⟩ := Option.bind_eq_some_iff.mp steps
  obtain ⟨write', lowered, steps⟩ := Option.bind_eq_some_iff.mp steps
  obtain ⟨result, replaced, rfl⟩ := Option.map_eq_some_iff.mp steps
  obtain ⟨apart, rfl⟩ := of_checkedSub difference
  obtain ⟨room, rfl⟩ := of_checkedSub lowered
  have total : write + (prevMatch - readOffset) = writeOffset := by
    split at moved
    next none => rw [← Option.some.inj moved, none, Nat.add_zero]
    next =>
      obtain ⟨le, rfl⟩ := of_checkedSub moved
      exact Nat.sub_add_cancel le
  have shape : text = str.take write ++ ((str.drop readOffset).take (prevMatch - readOffset) ++ str.drop writeOffset) ∧
      text.length = str.length := by
    split at moves
    next none =>
      rw [none, Nat.add_zero] at total
      rw [← Option.some.inj moves, none, List.take_zero, List.nil_append, total, List.take_append_drop]
      exact ⟨rfl, rfl⟩
    next =>
      rw [memmove] at moves
      split at moves
      next within =>
        have size : ((str.drop readOffset).take (prevMatch - readOffset)).length = prevMatch - readOffset := by
          rw [List.length_take, List.length_drop]
          omega
        rw [← Option.some.inj moves, total]
        refine ⟨rfl, ?_⟩
        have inside : write + ((str.drop readOffset).take (prevMatch - readOffset)).length ≤ str.length := by omega
        have length := length_overwrite inside
        rwa [size, total] at length
      next => cases moves
  have below : write ≤ str.length := by omega
  have front : (str.take write).length = write := by rw [List.length_take, Nat.min_eq_left below]
  have result_ := of_stdReplace replaced
  have take : text.take (write - rep.length) = str.take (write - rep.length) := by
    rw [shape.1, List.take_append_of_le_length (by omega), List.take_take, Nat.min_eq_left (by omega)]
  rw [take, Nat.sub_add_cancel room, shape.1, List.drop_left' front] at result_
  refine ⟨apart, by omega, ?_, result_⟩
  have lengths := congrArg List.length shape.1
  rw [result_, ← shape.2, lengths]
  simp only [List.length_append, List.length_take]
  omega

omit [DecidableEq α] in
/-- A round with room succeeds. -/
theorem expandStep_eq {str : List α} {prevMatch writeOffset currentMatch : Nat} (fits : str.length ≤ maxSize.value)
    (inside : writeOffset ≤ str.length) (within : prevMatch ≤ str.length) (apart : currentMatch + find.length ≤ prevMatch)
    (room : rep.length + (prevMatch - (currentMatch + find.length)) ≤ writeOffset) :
    ∃ step, expandStep maxSize find rep str prevMatch writeOffset currentMatch = some step := by
  have below := maxSize.below
  rw [expandStep, sizeAdd_of_lt (by omega), checkedSub_of_le apart, Option.bind_some]
  generalize read : currentMatch + find.length = readOffset at *
  have moves : (if prevMatch - readOffset = 0 then some writeOffset else checkedSub writeOffset (prevMatch - readOffset)) =
      some (writeOffset - (prevMatch - readOffset)) := by
    split
    next none => rw [none, Nat.sub_zero]
    next => exact checkedSub_of_le (by omega)
  rw [moves, Option.bind_some, memmove_unless (by omega) (by omega), Option.bind_some, checkedSub_of_le (by omega),
    Option.bind_some]
  have size : ((str.drop readOffset).take (prevMatch - readOffset)).length = prevMatch - readOffset := by
    rw [List.length_take, List.length_drop]
    omega
  generalize (str.drop readOffset).take (prevMatch - readOffset) = gap at *
  have length := @length_overwrite α str gap (writeOffset - (prevMatch - readOffset)) (by omega)
  rw [stdReplace_of_room (by omega) rfl (by omega)]
  exact ⟨_, rfl⟩

variable {readOffset writeOffset' : Nat}

omit [DecidableEq α] in
theorem Expanded.drop {str' : List α} (expanded : Expanded rep str prevMatch writeOffset readOffset str' writeOffset')
    (inside : writeOffset ≤ str.length) :
    str'.drop writeOffset' = rep ++ ((str.drop readOffset).take (prevMatch - readOffset) ++ str.drop writeOffset) := by
  have room := expanded.room
  rw [expanded.text]
  exact List.drop_left' (by rw [List.length_take, Nat.min_eq_left (by omega)])

omit [DecidableEq α] in
theorem Expanded.drop_behind {str' : List α}
    (expanded : Expanded rep str prevMatch writeOffset readOffset str' writeOffset') (inside : writeOffset ≤ str.length) :
    str'.drop writeOffset = str.drop writeOffset := by
  have room := expanded.room
  have length := congrArg List.length expanded.text
  rw [expanded.length] at length
  simp only [List.length_append, List.length_take, List.length_drop] at length
  have behind : writeOffset = writeOffset' + (writeOffset - writeOffset') := by omega
  have front : (rep ++ (str.drop readOffset).take (prevMatch - readOffset)).length = writeOffset - writeOffset' := by
    simp only [List.length_append, List.length_take, List.length_drop]
    omega
  conv_lhs => rw [behind, ← List.drop_drop, expanded.drop inside, ← List.append_assoc]
  exact List.drop_left' front

/-! ### The loop -/

/-- A search finds the last occurrence up to a position, if there is one. -/
theorem stdRfind_cases {text s : List α} (some_ : s ≠ []) (pos : Nat) :
    (stdRfind text s pos = npos ∧ ∀ i ≤ pos, matchesAt text s i = false) ∨
      (stdRfind text s pos ≤ pos ∧ stdRfind text s pos + s.length ≤ text.length ∧
        matchesAt text s (stdRfind text s pos) = true ∧
        ∀ i, stdRfind text s pos < i → i ≤ pos → matchesAt text s i = false) := by
  have passes {i : Nat} (le : i ≤ pos) (found : matchesAt text s i = true) :
      i < text.length + 1 ∧ (i ≤ pos && (i + s.length ≤ text.length && matchesAt text s i)) = true := by
    have room := le_of_matchesAt found some_
    rw [decide_eq_true le, decide_eq_true room, found]
    exact ⟨by omega, rfl⟩
  rw [stdRfind]
  cases found : highest (fun i => i ≤ pos && (i + s.length ≤ text.length && matchesAt text s i)) (text.length + 1) with
  | none =>
    refine .inl ⟨rfl, fun i le => Bool.eq_false_iff.mpr fun matched => ?_⟩
    obtain ⟨below, passing⟩ := passes le matched
    have fails := highest_eq_none_iff.mp found i below
    rw [passing] at fails
    cases fails
  | some x =>
    obtain ⟨_, passing, last⟩ := highest_eq_some_iff.mp found
    rw [Bool.and_eq_true, Bool.and_eq_true, decide_eq_true_iff, decide_eq_true_iff] at passing
    refine .inr ⟨passing.1, passing.2.1, passing.2.2, fun i after le => Bool.eq_false_iff.mpr fun matched => ?_⟩
    obtain ⟨below, passing'⟩ := passes le matched
    have fails := last i after below
    rw [passing'] at fails
    cases fails

variable {firstMatch : Nat}

/-- The loop only writes in front of its place. -/
theorem expandLoop_keeps (fuel : Nat) (inside : writeOffset ≤ str.length)
    (runs : expandLoop maxSize find rep firstMatch fuel str prevMatch writeOffset currentMatch = some result) :
    result.length = str.length ∧ result.drop writeOffset = str.drop writeOffset := by
  induction fuel generalizing str prevMatch writeOffset currentMatch with
  | zero => cases runs
  | succ fuel ih =>
    rw [expandLoop] at runs
    obtain ⟨step, steps, runs⟩ := Option.bind_eq_some_iff.mp runs
    have expanded := expanded_of_expandStep inside steps
    have room := expanded.room
    split at runs
    next =>
      cases runs
      exact ⟨expanded.length, expanded.drop_behind inside⟩
    next =>
      obtain ⟨last, _, runs⟩ := Option.bind_eq_some_iff.mp runs
      obtain ⟨length, same⟩ := ih (by rw [expanded.length]; omega) runs
      refine ⟨length.trans expanded.length, ?_⟩
      have behind : writeOffset = step.2 + (writeOffset - step.2) := by omega
      rw [← expanded.drop_behind inside, behind, ← List.drop_drop, same, List.drop_drop]

theorem round_of_expandLoop {fuel : Nat} (inside : writeOffset ≤ str.length)
    (runs : expandLoop maxSize find rep firstMatch fuel str prevMatch writeOffset currentMatch = some result) :
    ∃ str' writeOffset', Expanded rep str prevMatch writeOffset (sizeAdd currentMatch find.length) str' writeOffset' ∧
      result.drop writeOffset' = str'.drop writeOffset' ∧
      (currentMatch ≠ firstMatch → ∃ fuel', expandLoop maxSize find rep firstMatch fuel' str' currentMatch writeOffset'
        (stdRfind str' find (currentMatch - 1)) = some result) := by
  cases fuel with
  | zero => cases runs
  | succ fuel =>
    rw [expandLoop] at runs
    obtain ⟨step, steps, runs⟩ := Option.bind_eq_some_iff.mp runs
    have expanded := expanded_of_expandStep inside steps
    have room := expanded.room
    refine ⟨step.1, step.2, expanded, ?_⟩
    split at runs
    next first =>
      cases runs
      exact ⟨rfl, fun further => absurd first further⟩
    next =>
      obtain ⟨last, lowered, runs⟩ := Option.bind_eq_some_iff.mp runs
      obtain ⟨_, rfl⟩ := of_checkedSub lowered
      exact ⟨(expandLoop_keeps fuel (by rw [expanded.length]; omega) runs).2, fun _ => ⟨fuel, runs⟩⟩

/-! ### A match that is not one from left to right -/

/-- If the text behind both is the same, then the replacement of the stray match is that of the match shifted. -/
theorem shifts_of_same {tail tail' : List α} {m d e q : Nat} (some_ : find ≠ []) (positive : 0 < d)
    (near : d < find.length) (length : rep.length = find.length + e) (matched : matchesAt text find m = true)
    (stray : matchesAt text find (m + d) = true) (apart : m + d + find.length ≤ q)
    (same : (rep ++ ((text.drop (m + find.length)).take (q - (m + find.length)) ++ tail)).drop d = rep ++ tail') :
    Shifts find rep d e where
  positive := positive
  length := length
  overlap t inside := by
    calc
      find[t + d]? = text[m + (t + d)]? := (matchesAt_iff_getElem.mp matched (t + d) inside).symm
      _ = text[m + d + t]? := by rw [Nat.add_comm t d, Nat.add_assoc]
      _ = find[t]? := matchesAt_iff_getElem.mp stray t (by omega)
  shifted t inside := by
    calc
      rep[t]? = (rep ++ tail')[t]? := (List.getElem?_append_left (by omega)).symm
      _ = (rep ++ ((text.drop (m + find.length)).take (q - (m + find.length)) ++ tail))[d + t]? := by
        rw [← same, List.getElem?_drop]
      _ = rep[t + d]? := by rw [Nat.add_comm d, List.getElem?_append_left inside]
  last t behind inside := by
    have room := le_of_matchesAt stray some_
    have within : d + t - rep.length < ((text.drop (m + find.length)).take (q - (m + find.length))).length := by
      rw [List.length_take, List.length_drop]
      omega
    calc
      rep[t]? = (rep ++ tail')[t]? := (List.getElem?_append_left inside).symm
      _ = (rep ++ ((text.drop (m + find.length)).take (q - (m + find.length)) ++ tail))[d + t]? := by
        rw [← same, List.getElem?_drop]
      _ = ((text.drop (m + find.length)).take (q - (m + find.length)))[d + t - rep.length]? := by
        rw [List.getElem?_append_right (by omega), List.getElem?_append_left within]
      _ = text[m + find.length + (d + t - rep.length)]? := by
        rw [List.getElem?_take_of_lt (by omega), List.getElem?_drop]
      _ = text[m + d + (t - e)]? := by rw [show m + find.length + (d + t - rep.length) = m + d + (t - e) by omega]
      _ = find[t - e]? := matchesAt_iff_getElem.mp stray (t - e) (by omega)

/-- The text that the loop has in a round, whose part up to `writeOffset` is not yet written. -/
structure Unwritten (text str : List α) (writeOffset : Nat) : Prop where
  inside : writeOffset ≤ str.length
  same : ∀ i < writeOffset, i < text.length → str[i]? = text[i]?

omit [DecidableEq α] in
theorem Expanded.unwritten {str' : List α}
    (expanded : Expanded rep str prevMatch writeOffset readOffset str' writeOffset')
    (unwritten : Unwritten text str writeOffset) : Unwritten text str' writeOffset' := by
  have room := expanded.room
  have inside := unwritten.inside
  refine ⟨by rw [expanded.length]; omega, fun i before within => ?_⟩
  rw [expanded.text, List.getElem?_append_left (by rw [List.length_take]; omega), List.getElem?_take_of_lt before]
  exact unwritten.same i (by omega) within

/-- A match in the part that is not yet written is one of the text. -/
theorem Unwritten.matchesAt_iff {i : Nat} (unwritten : Unwritten text str writeOffset)
    (before : i + find.length ≤ writeOffset) (within : i + find.length ≤ text.length) :
    matchesAt str find i = true ↔ matchesAt text find i = true := by
  rw [matchesAt_iff_getElem, matchesAt_iff_getElem]
  apply forall₂_congr
  intro t inside
  rw [unwritten.same (i + t) (by omega) (by omega)]

omit [DecidableEq α] in
/-- What is moved is text. -/
theorem Unwritten.take_drop {i j : Nat} (unwritten : Unwritten text str writeOffset) (before : j ≤ writeOffset)
    (within : j ≤ text.length) : (str.drop i).take (j - i) = (text.drop i).take (j - i) := by
  ext1 t
  by_cases inside : t < j - i
  · rw [List.getElem?_take_of_lt inside, List.getElem?_take_of_lt inside, List.getElem?_drop, List.getElem?_drop,
      unwritten.same (i + t) (by omega) (by omega)]
  · rw [List.getElem?_take_eq_none (not_lt.mp inside), List.getElem?_take_eq_none (not_lt.mp inside)]

theorem expandLoop_behind_start (some_ : find ≠ []) {fuel : Nat} (fits : str.length ≤ maxSize.value)
    (inside : writeOffset ≤ str.length) (order : firstMatch ≤ str.length) (short : find.length ≤ str.length) :
    expandLoop maxSize find rep firstMatch fuel str prevMatch writeOffset npos ≠ some result := by
  intro runs
  have limit := maxSize.below
  have positive := List.length_pos_iff.mpr some_
  have wraps : sizeAdd npos find.length = find.length - 1 := by
    rw [sizeAdd, npos]
    omega
  obtain ⟨str', writeOffset', expanded, _, next⟩ := round_of_expandLoop inside runs
  obtain ⟨fuel', runs'⟩ := next (by rw [npos]; omega)
  have length := expanded.length
  have room := expanded.room
  obtain ⟨_, _, expanded', _⟩ := round_of_expandLoop (by omega) runs'
  have room' := expanded'.room
  rcases @stdRfind_cases α _ str' find some_ (npos - 1) with ⟨none, _⟩ | ⟨_, within, _⟩
  · rw [none, wraps, npos] at room'
    omega
  · rw [sizeAdd_of_lt (by omega), npos] at room'
    rw [npos] at within
    omega

/-- From a match that is not one from left to right, the loop does not come to the result. -/
theorem expandLoop_astray (some_ : find ≠ []) {tail : List α} {fuel m d q e j : Nat}
    (length : rep.length = find.length + e) (fits : str.length ≤ maxSize.value) (short : text.length ≤ maxSize.value)
    (unwritten : Unwritten text str (q + (j + 1) * e)) (matched : matchesAt text find m = true)
    (clear : ∀ i, m + find.length ≤ i → i < q → matchesAt text find i = false) (within : q + find.length ≤ text.length)
    (order : firstMatch ≤ m) (positive : 0 < d) (below : m + d < q) (stray : matchesAt str find (m + d) = true)
    (written : str.drop (q + (j + 1) * e) = tail)
    (naive : result.drop (m + j * e) = rep ++ ((text.drop (m + find.length)).take (q - (m + find.length)) ++ tail)) :
    expandLoop maxSize find rep firstMatch fuel str q (q + (j + 1) * e) (m + d) ≠ some result := by
  intro runs
  have limit := maxSize.below
  have findPositive := List.length_pos_iff.mpr some_
  have inside := unwritten.inside
  rw [Nat.succ_mul] at *
  obtain ⟨str', writeOffset', expanded, keeps, next⟩ := round_of_expandLoop inside runs
  obtain ⟨fuel', runs'⟩ := next (by omega)
  rw [sizeAdd_of_lt (by omega)] at expanded
  have apart := expanded.apart
  have room := expanded.room
  have length' := expanded.length
  have place : writeOffset' = m + d + j * e := by omega
  have stray' : matchesAt text find (m + d) = true := (unwritten.matchesAt_iff (by omega) (by omega)).mp stray
  have near : d < find.length := by
    by_contra far
    rw [clear (m + d) (by omega) below] at stray'
    cases stray'
  have drop := expanded.drop inside
  rw [unwritten.take_drop (by omega) (by omega), written] at drop
  have same := keeps.trans drop
  rw [show writeOffset' = m + j * e + d by omega, ← List.drop_drop, naive] at same
  have shifts : Shifts find rep d e := shifts_of_same some_ positive near length matched stray' apart same
  have unwritten' := expanded.unwritten unwritten
  have inside' := unwritten'.inside
  have survives (first : ∀ t < d, rep[t]? = find[t]?) : matchesAt str' find m = true := by
    rw [matchesAt_iff_getElem]
    intro u before
    by_cases early : u < d + j * e
    · rw [unwritten'.same (m + u) (by omega) (by omega)]
      exact matchesAt_iff_getElem.mp matched u before
    · calc
        str'[m + u]? = (str'.drop writeOffset')[u - (d + j * e)]? := by
          rw [List.getElem?_drop, show writeOffset' + (u - (d + j * e)) = m + u by omega]
        _ = rep[u - (d + j * e)]? := by rw [drop, List.getElem?_append_left (by omega)]
        _ = find[u]? := (shifts.survives first (not_lt.mp early) before).symm
  obtain ⟨str'', writeOffset'', expanded', keeps', _⟩ := round_of_expandLoop inside' runs'
  rcases @stdRfind_cases α _ str' find some_ (m + d - 1) with ⟨none, absent⟩ | ⟨le, within', found, last⟩
  · rw [none] at runs'
    exact expandLoop_behind_start some_ (by omega) inside' (by omega) (by omega) runs'
  · generalize stdRfind str' find (m + d - 1) = p at *
    rw [sizeAdd_of_lt (by omega)] at expanded'
    have apart' := expanded'.apart
    have room' := expanded'.room
    have found' : matchesAt text find p = true := (unwritten'.matchesAt_iff (by omega) (by omega)).mp found
    have drop' := expanded'.drop inside'
    rw [unwritten'.take_drop (by omega) (by omega)] at drop'
    by_cases before : m ≤ p
    · omega
    · have first (t : Nat) (inside : t < d) : rep[t]? = find[t]? := by
        have start := congrArg (fun text => text[t]?) naive
        have here := congrArg (fun text => text[e + (m - p) + t]?) (keeps'.trans drop')
        rw [List.getElem?_drop, List.getElem?_append_left (by omega)] at start
        rw [List.getElem?_drop, show writeOffset'' + (e + (m - p) + t) = m + j * e + t by omega, start] at here
        have same : text[p + (m - p + t)]? = find[t]? := by
          rw [← Nat.add_assoc, Nat.add_sub_cancel' (by omega)]
          exact matchesAt_iff_getElem.mp matched t (by omega)
        by_cases early : m - p + t < find.length
        · calc
            rep[t]? = find[e + (m - p) + t - e]? := by
              rw [here, List.getElem?_append_left (by omega), shifts.suffix (by omega) (by omega)]
            _ = find[m - p + t]? := by rw [show e + (m - p) + t - e = m - p + t by omega]
            _ = text[p + (m - p + t)]? := (matchesAt_iff_getElem.mp found' (m - p + t) early).symm
            _ = find[t]? := same
        · have moved : e + (m - p) + t - rep.length < ((text.drop (p + find.length)).take
              (m + d - (p + find.length))).length := by
            rw [List.length_take, List.length_drop]
            omega
          rw [here, List.getElem?_append_right (by omega), List.getElem?_append_left moved,
            List.getElem?_take_of_lt (by omega), List.getElem?_drop, ← same]
          congr 1
          omega
      rw [last m (by omega) (by omega)] at survives
      cases survives first

end Libchrome.Base.Strings
