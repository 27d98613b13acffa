import Mathlib.Data.List.Infix

/-! # Lists cut into components at a separator -/

namespace Libchrome.Library

variable {α : Type*} [BEq α] [LawfulBEq α]

/-- Every component stands behind one separator, when one is put in front. -/
theorem cons_eq_flatMap_splitOn (sep : α) (xs : List α) :
    sep :: xs = (xs.splitOn sep).flatMap fun component => sep :: component := by
  induction xs with
  | nil => rfl
  | cons x xs ih =>
    rw [List.splitOn_cons_eq_if_modifyHead]
    split
    next same =>
      rw [List.flatMap_cons, ← ih, eq_of_beq same]
      rfl
    next =>
      obtain ⟨first, rest, split⟩ := List.exists_cons_of_ne_nil (List.splitOn_ne_nil sep xs)
      rw [split, List.flatMap_cons, List.cons_append, List.cons.injEq] at ih
      rw [split, List.modifyHead_cons, List.flatMap_cons, ih.2]
      rfl

/-- A component has a separator or an end of the list on either side. -/
theorem exists_of_mem_splitOn {sep : α} {xs component : List α} (member : component ∈ xs.splitOn sep) :
    ∃ front back, sep :: xs = front ++ sep :: (component ++ back) ∧ (back = [] ∨ back.head? = some sep) := by
  obtain ⟨before, after, split⟩ := List.append_of_mem member
  refine ⟨before.flatMap fun component => sep :: component, after.flatMap fun component => sep :: component, ?_, ?_⟩
  · rw [cons_eq_flatMap_splitOn sep xs, split, List.flatMap_append, List.flatMap_cons, List.cons_append]
  · cases after with
    | nil => exact .inl rfl
    | cons => exact .inr rfl

/-- An element is in a component, unless it is the separator. -/
theorem exists_mem_splitOn {sep x : α} {xs : List α} (member : x ∈ xs) (other : x ≠ sep) :
    ∃ component ∈ xs.splitOn sep, x ∈ component := by
  have inside : x ∈ sep :: xs := List.mem_cons_of_mem sep member
  rw [cons_eq_flatMap_splitOn sep xs, List.mem_flatMap] at inside
  obtain ⟨component, found, inside⟩ := inside
  exact ⟨component, found, (List.mem_cons.mp inside).resolve_left other⟩

theorem mem_of_mem_splitOn {sep x : α} {xs component : List α} (member : component ∈ xs.splitOn sep)
    (inside : x ∈ component) (other : x ≠ sep) : x ∈ xs := by
  have found : x ∈ sep :: xs := by
    rw [cons_eq_flatMap_splitOn sep xs]
    exact List.mem_flatMap.mpr ⟨component, member, List.mem_cons_of_mem sep inside⟩
  exact (List.mem_cons.mp found).resolve_left other

theorem fails_of_mem_splitOnP {α : Type*} {p : α → Bool} {text piece : List α} (member : piece ∈ text.splitOnP p)
    {c : α} (inside : c ∈ piece) : p c = false := by
  induction text generalizing piece with
  | nil =>
    rw [List.splitOnP_nil, List.mem_singleton] at member
    subst member
    cases inside
  | cons d rest ih =>
    rw [List.splitOnP_cons_eq_if_modifyHead] at member
    split at member
    next =>
      rcases List.mem_cons.mp member with rfl | later
      · cases inside
      · exact ih later inside
    next stays =>
      obtain ⟨first, more, pieces⟩ := List.exists_cons_of_ne_nil (List.splitOnP_ne_nil p rest)
      rw [pieces, List.modifyHead_cons] at member
      rw [pieces] at ih
      rcases List.mem_cons.mp member with rfl | later
      · rcases List.mem_cons.mp inside with rfl | within
        · exact Bool.eq_false_iff.mpr stays
        · exact ih List.mem_cons_self within
      · exact ih (List.mem_cons_of_mem first later) inside

/-- The components that are not empty. -/
def pieces (sep : α) (xs : List α) : List (List α) := (xs.splitOn sep).filter fun component => !component.isEmpty

theorem pieces_append_cons (sep : α) (xs ys : List α) : pieces sep (xs ++ sep :: ys) = pieces sep xs ++ pieces sep ys := by
  rw [pieces, List.splitOn_append_cons_self, List.filter_append]
  rfl

theorem pieces_of_plain {sep : α} {xs : List α} (plain : sep ∉ xs) (nonempty : xs ≠ []) : pieces sep xs = [xs] := by
  rw [pieces, List.splitOn_eq_singleton plain]
  cases xs with
  | nil => exact absurd rfl nonempty
  | cons => rfl

omit [LawfulBEq α] in
@[simp] theorem pieces_nil (sep : α) : pieces sep [] = [] :=
  rfl

/-- Separators at the end delimit nothing more. -/
theorem pieces_append_replicate (sep : α) (xs : List α) (n : Nat) :
    pieces sep (xs ++ List.replicate n sep) = pieces sep xs := by
  induction n generalizing xs with
  | zero => rw [List.replicate_zero, List.append_nil]
  | succ n ih =>
    have rest := ih []
    rw [List.nil_append, pieces_nil] at rest
    rw [List.replicate_succ, pieces_append_cons, rest, List.append_nil]

theorem plain_of_mem_pieces {sep : α} {xs piece : List α} (member : piece ∈ pieces sep xs) :
    sep ∉ piece ∧ piece ≠ [] ∧ ∀ x ∈ piece, x ∈ xs := by
  obtain ⟨component, nonempty⟩ := List.mem_filter.mp member
  have plain : sep ∉ piece := by
    intro inside
    rw [List.splitOn_eq_splitOnP] at component
    exact absurd (BEq.rfl : (sep == sep) = true) (Bool.eq_false_iff.mp (fails_of_mem_splitOnP component inside))
  refine ⟨plain, ?_, fun x inside => ?_⟩
  · rintro rfl
    cases nonempty
  · apply mem_of_mem_splitOn component inside
    rintro rfl
    exact plain inside

end Libchrome.Library
