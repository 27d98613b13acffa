import Libchrome.Library.Searching

/-! Replacing the occurrences of a text within a text. -/

namespace Libchrome.Library.Replacing
open Library.Searching

variable {α : Type} [DecidableEq α] {all : Bool} {find rep : List α}

/-- From left to right, all occurrences (or the first one) that do not overlap, replaced. The first `skip` characters
are gone. -/
def replaceLeftToRight (all : Bool) (find rep : List α) : Nat → List α → List α
  | _, [] => []
  | skip + 1, _ :: rest => replaceLeftToRight all find rep skip rest
  | 0, c :: rest =>
    if matchesAt (c :: rest) find 0 then
      rep ++ if all then replaceLeftToRight all find rep (find.length - 1) rest else rest.drop (find.length - 1)
    else c :: replaceLeftToRight all find rep 0 rest

theorem replaceLeftToRight_skip (skip : Nat) (text : List α) :
    replaceLeftToRight all find rep skip text = replaceLeftToRight all find rep 0 (text.drop skip) := by
  induction text generalizing skip with
  | nil => rw [List.drop_nil, replaceLeftToRight, replaceLeftToRight]
  | cons c rest ih =>
    cases skip with
    | zero => rfl
    | succ skip => rw [List.drop_succ_cons, replaceLeftToRight, ih]

/-- An occurrence at the front is replaced. -/
theorem replaceLeftToRight_of_match {text : List α} (some_ : find ≠ []) (found : matchesAt text find 0 = true) :
    replaceLeftToRight all find rep 0 text =
      rep ++ if all then replaceLeftToRight all find rep 0 (text.drop find.length) else text.drop find.length := by
  have positive := List.length_pos_iff.mpr some_
  cases text with
  | nil =>
    have room := le_of_matchesAt found some_
    rw [List.length_nil] at room
    omega
  | cons c rest =>
    rw [replaceLeftToRight, if_pos found, replaceLeftToRight_skip, ← List.drop_succ_cons (a := c),
      Nat.sub_add_cancel positive]

/-- What is in front of the first occurrence stays. -/
theorem replaceLeftToRight_of_clear {text : List α} {n : Nat} (clear : ∀ i < n, matchesAt text find i = false) :
    replaceLeftToRight all find rep 0 text = text.take n ++ replaceLeftToRight all find rep 0 (text.drop n) := by
  induction n generalizing text with
  | zero => rfl
  | succ n ih =>
    cases text with
    | nil => rfl
    | cons c rest =>
      have first : ¬ matchesAt (c :: rest) find 0 = true := Bool.eq_false_iff.mp (clear 0 n.succ_pos)
      rw [replaceLeftToRight, if_neg first, List.take_succ_cons, List.drop_succ_cons, List.cons_append]
      congr 1
      exact ih fun i before => clear (i + 1) (Nat.succ_lt_succ before)

/-- A text with no occurrence stays as it is. -/
theorem replaceLeftToRight_of_absent {text : List α} (absent : ¬ find <:+: text) :
    replaceLeftToRight all find rep 0 text = text := by
  have clear : ∀ i < text.length, matchesAt text find i = false := by
    intro i _
    rw [Bool.eq_false_iff]
    exact fun found => absent ((matchesAt_iff.mp found).isInfix.trans (List.drop_suffix i text).isInfix)
  rw [replaceLeftToRight_of_clear clear, List.take_length, List.drop_length, replaceLeftToRight, List.append_nil]

/-- Replacing by what is not longer does not make a text longer. -/
theorem length_replaceLeftToRight_le (some_ : find ≠ []) (shorter : rep.length ≤ find.length) (text : List α) :
    (replaceLeftToRight all find rep 0 text).length ≤ text.length := by
  induction size : text.length using Nat.strong_induction_on generalizing text with
  | _ n ih =>
    cases text with
    | nil => exact Nat.zero_le _
    | cons c rest =>
      by_cases found : matchesAt (c :: rest) find 0 = true
      · have room := le_of_matchesAt found some_
        have positive := List.length_pos_iff.mpr some_
        have less := ih ((c :: rest).drop find.length).length (by rw [List.length_drop]; omega) _ rfl
        rw [List.length_drop] at less
        rw [replaceLeftToRight_of_match some_ found, List.length_append]
        split
        next => omega
        next =>
          rw [List.length_drop]
          omega
      · have less := ih rest.length (by rw [← size, List.length_cons]; omega) rest rfl
        rw [replaceLeftToRight, if_neg found, List.length_cons, ← size, List.length_cons]
        omega

/-! ### Occurrences that overlap -/

/-- An occurrence of `find` overlaps the one `d` characters on, and `rep`, the longer one, in place of the former is the
same as in place of the latter. -/
structure Shifts (find rep : List α) (d e : Nat) : Prop where
  positive : 0 < d
  length : rep.length = find.length + e
  overlap : ∀ t, t + d < find.length → find[t + d]? = find[t]?
  shifted : ∀ t, t + d < rep.length → rep[t]? = rep[t + d]?
  last : ∀ t, rep.length ≤ t + d → t < rep.length → rep[t]? = find[t - e]?

omit [DecidableEq α] in
/-- Then `rep` ends with `find`. -/
theorem Shifts.suffix {d e : Nat} (shifts : Shifts find rep d e) {t : Nat} (behind : e ≤ t) (inside : t < rep.length) :
    rep[t]? = find[t - e]? := by
  have positive := shifts.positive
  have length := shifts.length
  induction left : rep.length - t using Nat.strong_induction_on generalizing t with
  | _ n ih =>
    by_cases near : rep.length ≤ t + d
    · exact shifts.last t near inside
    · calc
        rep[t]? = rep[t + d]? := shifts.shifted t (not_le.mp near)
        _ = find[t + d - e]? := ih (rep.length - (t + d)) (by omega) (by omega) (not_le.mp near) rfl
        _ = find[t - e + d]? := by rw [show t + d - e = t - e + d by omega]
        _ = find[t - e]? := shifts.overlap (t - e) (by omega)

omit [DecidableEq α] in
/-- If `rep` also begins with `find`, then `find` stays where `rep` comes to lie on its end. -/
theorem Shifts.survives {d e : Nat} (shifts : Shifts find rep d e) (first : ∀ t < d, rep[t]? = find[t]?) {c u : Nat}
    (above : d + c * e ≤ u) (below : u < find.length) : find[u]? = rep[u - (d + c * e)]? := by
  have positive := shifts.positive
  have length := shifts.length
  have prefix_ (t : Nat) (inside : t < find.length) : rep[t]? = find[t]? := by
    induction t using Nat.strong_induction_on with
    | _ t ih =>
      by_cases near : t < d
      · exact first t near
      · calc
          rep[t]? = rep[t - d + d]? := by rw [Nat.sub_add_cancel (not_lt.mp near)]
          _ = rep[t - d]? := (shifts.shifted (t - d) (by omega)).symm
          _ = find[t - d]? := ih (t - d) (by omega) (by omega)
          _ = find[t - d + d]? := (shifts.overlap (t - d) (by omega)).symm
          _ = find[t]? := by rw [Nat.sub_add_cancel (not_lt.mp near)]
  have repeats (c : Nat) : ∀ v, c * e ≤ v → v < find.length → find[v]? = find[v - c * e]? := by
    induction c with
    | zero => exact fun v _ _ => by rw [Nat.zero_mul, Nat.sub_zero]
    | succ c ih =>
      intro v behind inside
      rw [Nat.succ_mul] at behind ⊢
      calc
        find[v]? = rep[v]? := (prefix_ v inside).symm
        _ = find[v - e]? := shifts.suffix (by omega) (by omega)
        _ = find[v - e - c * e]? := ih (v - e) (by omega) (by omega)
        _ = find[v - (c * e + e)]? := by rw [Nat.sub_sub, Nat.add_comm e]
  calc
    find[u]? = find[u - d + d]? := by rw [Nat.sub_add_cancel (by omega)]
    _ = find[u - d]? := shifts.overlap (u - d) (by omega)
    _ = find[u - d - c * e]? := repeats c (u - d) (by omega) (by omega)
    _ = find[u - (d + c * e)]? := by rw [Nat.sub_sub]
    _ = rep[u - (d + c * e)]? := (prefix_ _ (by omega)).symm

end Libchrome.Library.Replacing
