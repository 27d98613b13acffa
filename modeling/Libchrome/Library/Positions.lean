import Mathlib.Data.List.Basic

/-! Elements of a list by their positions, where one is added or exchanged. -/

namespace Libchrome.Library

variable {α : Type*}

variable {xs : List α}

/-- An element of a list with one more at its end is one of the list, or the one at the end. -/
theorem getElem?_concat_eq_some {last x : α} {i : Nat} (found : (xs ++ [last])[i]? = some x) :
    xs[i]? = some x ∨ (i = xs.length ∧ x = last) := by
  rcases Nat.lt_trichotomy i xs.length with inside | atEnd | beyond
  · rw [List.getElem?_append_left inside] at found
    exact .inl found
  · rw [atEnd, List.getElem?_concat_length] at found
    exact .inr ⟨atEnd, (Option.some.inj found).symm⟩
  · rw [List.getElem?_eq_none (by simp; omega)] at found
    cases found

/-- The same for what is found at a position. -/
theorem getElem?_set_eq_some {new x : α} {i j : Nat} (found : (xs.set i new)[j]? = some x) :
    (j = i ∧ x = new) ∨ (j ≠ i ∧ xs[j]? = some x) := by
  by_cases same : j = i
  · obtain ⟨inside, rfl⟩ := List.getElem?_eq_some_iff.mp found
    rw [List.length_set] at inside
    subst same
    exact .inl ⟨rfl, by simp⟩
  · rw [List.getElem?_set_ne (Ne.symm same)] at found
    exact .inr ⟨same, found⟩

variable {p : α → Bool}

/-- A list with one element exchanged counts the new one instead of the old one. -/
theorem countP_exchange {i : Nat} {x y : α} (found : xs[i]? = some x) :
    (xs.set i y).countP p + (p x).toNat = xs.countP p + (p y).toNat := by
  induction xs generalizing i with
  | nil => cases found
  | cons first rest ih =>
    cases i with
    | zero =>
      have same : first = x := by simpa using found
      rw [same]
      simp only [List.set_cons_zero, List.countP_cons]
      cases p x <;> cases p y <;> simp
    | succ i =>
      have rest := ih (i := i) (by simpa using found)
      simp only [List.set_cons_succ, List.countP_cons]
      omega

/-- An element that a filter keeps stands behind those that it keeps before it. -/
theorem getElem?_filter_countP {i : Nat} {x : α} (found : xs[i]? = some x) (keeps : p x = true) :
    (xs.filter p)[(xs.take i).countP p]? = some x := by
  induction xs generalizing i with
  | nil => cases found
  | cons first rest ih =>
    cases i with
    | zero =>
      cases Option.some.inj found
      rw [List.take_zero, List.countP_nil, List.filter_cons_of_pos keeps, List.getElem?_cons_zero]
    | succ i =>
      rw [List.getElem?_cons_succ] at found
      rw [List.take_succ_cons, List.countP_cons, List.filter_cons]
      split
      next => rw [List.getElem?_cons_succ, ih found]
      next => rw [Nat.add_zero, ih found]

theorem exists_of_getElem?_filter {j : Nat} {x : α} (found : (xs.filter p)[j]? = some x) :
    ∃ i, xs[i]? = some x ∧ (xs.take i).countP p = j ∧ p x = true := by
  induction xs generalizing j with
  | nil => cases found
  | cons first rest ih =>
    rw [List.filter_cons] at found
    split at found
    next kept =>
      cases j with
      | zero => exact ⟨0, by rw [List.getElem?_cons_zero] at found ⊢; exact found, rfl, Option.some.inj found ▸ kept⟩
      | succ j =>
        obtain ⟨i, there, count, keeps⟩ := ih (by rwa [List.getElem?_cons_succ] at found)
        refine ⟨i + 1, by rwa [List.getElem?_cons_succ], ?_, keeps⟩
        rw [List.take_succ_cons, List.countP_cons, count, if_pos kept]
    next dropped =>
      obtain ⟨i, there, count, keeps⟩ := ih found
      refine ⟨i + 1, by rwa [List.getElem?_cons_succ], ?_, keeps⟩
      rw [List.take_succ_cons, List.countP_cons, count, if_neg dropped, Nat.add_zero]

/-- A kept element stands before all that is kept behind it. -/
theorem countP_take_lt {i j : Nat} {x : α} (found : xs[i]? = some x) (keeps : p x = true) (before : i < j) :
    (xs.take i).countP p < (xs.take j).countP p := by
  have upTo : (xs.take (i + 1)).countP p = (xs.take i).countP p + 1 := by
    rw [List.take_add_one, found, Option.toList_some, List.countP_append, List.countP_singleton, if_pos keeps]
  have further : (xs.take (i + 1)).countP p ≤ (xs.take j).countP p :=
    (List.take_sublist_take_left before).countP_le
  omega

end Libchrome.Library
