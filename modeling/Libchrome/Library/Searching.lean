import Mathlib.Order.Basic
import Mathlib.Data.List.Infix

/-! Searches for the lowest or the highest position that passes a test. -/

namespace Libchrome.Library.Searching

variable {p q : Nat → Bool}

/-- The lowest of the `count` positions from `start` on that passes. -/
def lowest (p : Nat → Bool) (start : Nat) : Nat → Option Nat
  | 0 => none
  | count + 1 => if p start then some start else lowest p (start + 1) count

/-- The highest position below `bound` that passes. -/
def highest (p : Nat → Bool) : Nat → Option Nat
  | 0 => none
  | bound + 1 => if p bound then some bound else highest p bound

variable {start count : Nat}

theorem lowest_eq_some_iff {i : Nat} :
    lowest p start count = some i ↔ start ≤ i ∧ i < start + count ∧ p i = true ∧ ∀ j, start ≤ j → j < i → p j = false := by
  induction count generalizing start with
  | zero => exact iff_of_false (fun found => by cases found) (by omega)
  | succ count ih =>
    rw [lowest]
    split
    next passes =>
      rw [Option.some.injEq]
      constructor
      · rintro rfl
        exact ⟨le_rfl, by omega, passes, by omega⟩
      · rintro ⟨above, _, _, first⟩
        by_contra apart
        exact absurd passes (Bool.eq_false_iff.mp (first start le_rfl (by omega)))
    next fails =>
      rw [ih]
      constructor
      · rintro ⟨above, below, passes, first⟩
        refine ⟨by omega, by omega, passes, fun j from_ before => ?_⟩
        rcases from_.eq_or_lt with rfl | later
        · exact Bool.eq_false_iff.mpr fails
        · exact first j later before
      · rintro ⟨above, below, passes, first⟩
        have apart : start ≠ i := fun same => fails (same ▸ passes)
        exact ⟨by omega, by omega, passes, fun j from_ before => first j (by omega) before⟩

theorem lowest_eq_none_iff : lowest p start count = none ↔ ∀ j, start ≤ j → j < start + count → p j = false := by
  induction count generalizing start with
  | zero => exact iff_of_true rfl (by omega)
  | succ count ih =>
    rw [lowest]
    split
    next passes =>
      exact iff_of_false (fun none => by cases none)
        fun fails => absurd passes (Bool.eq_false_iff.mp (fails start le_rfl (by omega)))
    next fails =>
      rw [ih]
      constructor
      · intro later j from_ before
        rcases from_.eq_or_lt with rfl | after
        · exact Bool.eq_false_iff.mpr fails
        · exact later j after (by omega)
      · exact fun all j from_ before => all j (by omega) (by omega)

variable {bound : Nat}

theorem highest_eq_some_iff {i : Nat} :
    highest p bound = some i ↔ i < bound ∧ p i = true ∧ ∀ j, i < j → j < bound → p j = false := by
  induction bound with
  | zero => exact iff_of_false (fun found => by cases found) (by omega)
  | succ bound ih =>
    rw [highest]
    split
    next passes =>
      rw [Option.some.injEq]
      constructor
      · rintro rfl
        exact ⟨Nat.lt_succ_self _, passes, by omega⟩
      · rintro ⟨below, _, last⟩
        by_contra apart
        exact absurd passes (Bool.eq_false_iff.mp (last bound (by omega) (Nat.lt_succ_self _)))
    next fails =>
      rw [ih]
      constructor
      · rintro ⟨below, passes, last⟩
        refine ⟨by omega, passes, fun j after before => ?_⟩
        rcases (Nat.le_of_lt_succ before).eq_or_lt with rfl | earlier
        · exact Bool.eq_false_iff.mpr fails
        · exact last j after earlier
      · rintro ⟨below, passes, last⟩
        have apart : i ≠ bound := fun same => fails (same ▸ passes)
        exact ⟨by omega, passes, fun j after before => last j after (by omega)⟩

theorem highest_eq_none_iff : highest p bound = none ↔ ∀ j < bound, p j = false := by
  induction bound with
  | zero => exact iff_of_true rfl (by omega)
  | succ bound ih =>
    rw [highest]
    split
    next passes =>
      exact iff_of_false (fun none => by cases none)
        fun fails => absurd passes (Bool.eq_false_iff.mp (fails bound (Nat.lt_succ_self _)))
    next fails =>
      rw [ih]
      constructor
      · intro earlier j before
        rcases (Nat.le_of_lt_succ before).eq_or_lt with rfl | earlier'
        · exact Bool.eq_false_iff.mpr fails
        · exact earlier j earlier'
      · exact fun all j before => all j (by omega)

theorem lowest_of_same {start' count' i : Nat}
    (same : ∀ i, (start ≤ i ∧ i < start + count ∧ p i = true) ↔ (start' ≤ i ∧ i < start' + count' ∧ q i = true))
    (found : lowest p start count = some i) : lowest q start' count' = some i := by
  rw [lowest_eq_some_iff] at found ⊢
  obtain ⟨above, below, passes, first⟩ := found
  obtain ⟨above', below', passes'⟩ := (same i).mp ⟨above, below, passes⟩
  refine ⟨above', below', passes', fun j from_ before => Bool.eq_false_iff.mpr fun passing => ?_⟩
  obtain ⟨low, _, passed⟩ := (same j).mpr ⟨from_, before.trans below', passing⟩
  exact absurd passed (Bool.eq_false_iff.mp (first j low before))

/-- Two searches upwards that the same positions pass find the same. -/
theorem lowest_congr {start' count' : Nat}
    (same : ∀ i, (start ≤ i ∧ i < start + count ∧ p i = true) ↔ (start' ≤ i ∧ i < start' + count' ∧ q i = true)) :
    lowest p start count = lowest q start' count' := by
  ext i
  exact ⟨lowest_of_same same, lowest_of_same fun i => (same i).symm⟩

theorem highest_of_same {bound' i : Nat} (same : ∀ i, (i < bound ∧ p i = true) ↔ (i < bound' ∧ q i = true))
    (found : highest p bound = some i) : highest q bound' = some i := by
  rw [highest_eq_some_iff] at found ⊢
  obtain ⟨below, passes, last⟩ := found
  obtain ⟨below', passes'⟩ := (same i).mp ⟨below, passes⟩
  refine ⟨below', passes', fun j after before => Bool.eq_false_iff.mpr fun passing => ?_⟩
  obtain ⟨within, passed⟩ := (same j).mpr ⟨before, passing⟩
  exact absurd passed (Bool.eq_false_iff.mp (last j after within))

/-- Two searches downwards that the same positions pass find the same. -/
theorem highest_congr {bound' : Nat} (same : ∀ i, (i < bound ∧ p i = true) ↔ (i < bound' ∧ q i = true)) :
    highest p bound = highest q bound' := by
  ext i
  exact ⟨highest_of_same same, highest_of_same fun i => (same i).symm⟩

/-! ### A text within a text -/

section Matching
variable {α : Type} [DecidableEq α]

/-- The text has these characters from a position on. -/
def matchesAt (text s : List α) (i : Nat) : Bool := (text.drop i).take s.length = s

variable {text s : List α}

theorem matchesAt_iff {i : Nat} : matchesAt text s i = true ↔ s <+: text.drop i := by
  rw [matchesAt, decide_eq_true_iff]
  constructor
  · intro same
    rw [← same]
    exact List.take_prefix _ _
  · intro starts
    exact (List.prefix_iff_eq_take.mp starts).symm

theorem matchesAt_iff_getElem {i : Nat} : matchesAt text s i = true ↔ ∀ t < s.length, text[i + t]? = s[t]? := by
  rw [matchesAt, decide_eq_true_iff]
  constructor
  · intro same t inside
    rw [← same, List.getElem?_take_of_lt inside, List.getElem?_drop]
  · intro same
    ext1 t
    by_cases inside : t < s.length
    · rw [List.getElem?_take_of_lt inside, List.getElem?_drop, same t inside]
    · rw [List.getElem?_take_eq_none (not_lt.mp inside), List.getElem?_eq_none (not_lt.mp inside)]

theorem le_of_matchesAt {i : Nat} (found : matchesAt text s i = true) (some : s ≠ []) :
    i + s.length ≤ text.length := by
  have short := (matchesAt_iff.mp found).length_le
  have positive := List.length_pos_iff.mpr some
  rw [List.length_drop] at short
  omega

theorem matchesAt_drop (text s : List α) (pos i : Nat) : matchesAt (text.drop pos) s i = matchesAt text s (pos + i) := by
  rw [matchesAt, matchesAt, List.drop_drop]

/-- A text within a text matches somewhere. -/
theorem matchesAt_of_infix (within : s <:+: text) : ∃ i, i + s.length ≤ text.length ∧ matchesAt text s i = true := by
  obtain ⟨front, back, rfl⟩ := within
  refine ⟨front.length, ?_, ?_⟩
  · rw [List.length_append, List.length_append]
    omega
  · rw [List.append_assoc, matchesAt, List.drop_left, List.take_left]
    exact decide_eq_true rfl

/-- A match of the beginning of a text is one of the text. -/
theorem matchesAt_append_right {front back : List α} {i : Nat} (found : matchesAt front s i = true) :
    matchesAt (front ++ back) s i = true := by
  rw [matchesAt_iff] at found ⊢
  obtain ⟨rest, same⟩ := found
  by_cases inside : i ≤ front.length
  · rw [List.drop_append_of_le_length inside]
    exact ⟨rest ++ back, by rw [← List.append_assoc, same]⟩
  · rw [List.drop_eq_nil_of_le (not_le.mp inside).le] at same
    rw [(List.append_eq_nil_iff.mp same).1]
    exact List.nil_prefix

end Matching

end Libchrome.Library.Searching
