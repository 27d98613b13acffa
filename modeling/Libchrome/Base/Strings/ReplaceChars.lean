import Libchrome.Library.Searching

/-! `ReplaceChars` (`string_util.cc`). -/

namespace Libchrome.Base.Strings
open Library.Searching
variable {α : Type} [DecidableEq α]

/-- `find_first_of`. -/
def findFirstOf (text s : List α) (pos : Nat) : Option Nat :=
  lowest (fun i => text[i]?.any s.contains) pos (text.length - pos)

/-- `find_last_not_of`. -/
def findLastNotOf (text s : List α) : Option Nat :=
  highest (fun i => text[i]?.any fun c => !s.contains c) text.length

theorem findFirstOf_bounds {text s : List α} {pos found : Nat} (at_ : findFirstOf text s pos = some found) :
    pos ≤ found ∧ found < text.length := by
  obtain ⟨after, before, _, _⟩ := lowest_eq_some_iff.mp at_
  omega

/-- The loop of `ReplaceCharsT`. -/
def replaceCharsLoop (replaceChars replaceWith : List α) (removed : Bool) (output : List α) (pos : Nat) :
    Bool × List α :=
  match _at : findFirstOf output replaceChars pos with
  | none => (removed, output)
  | some found =>
    replaceCharsLoop replaceChars replaceWith true (output.take found ++ replaceWith ++ output.drop (found + 1))
      (found + replaceWith.length)
  termination_by output.length - pos
  decreasing_by
    obtain ⟨after, before⟩ := findFirstOf_bounds _at
    simp only [List.length_append, List.length_take, List.length_drop]
    omega

def replaceCharsT (input replaceChars replaceWith : List α) : Bool × List α :=
  replaceCharsLoop replaceChars replaceWith false input 0

variable {replaceChars replaceWith : List α}

omit [DecidableEq α] in
theorem getElem?_behind (front rest : List α) (c : α) : (front ++ c :: rest)[front.length]? = some c := by
  rw [List.getElem?_append_right (Nat.le_refl _), Nat.sub_self, List.getElem?_cons_zero]

theorem findFirstOf_nil (front : List α) : findFirstOf front replaceChars front.length = none := by
  rw [findFirstOf, Nat.sub_self, lowest]

theorem findFirstOf_cons (front rest : List α) (c : α) :
    findFirstOf (front ++ c :: rest) replaceChars front.length =
      if replaceChars.contains c then some front.length
      else findFirstOf (front ++ [c] ++ rest) replaceChars (front ++ [c]).length := by
  have same : front ++ c :: rest = front ++ [c] ++ rest := by simp
  have count : (front ++ c :: rest).length - front.length = (front ++ c :: rest).length - (front.length + 1) + 1 := by
    simp only [List.length_append, List.length_cons]
    omega
  rw [findFirstOf, count, lowest, getElem?_behind, Option.any_some]
  apply if_congr Iff.rfl rfl
  have behind : (front ++ [c]).length = front.length + 1 := List.length_append
  rw [findFirstOf, ← same, behind]

theorem replaceCharsLoop_eq (removed : Bool) (front rest : List α) :
    replaceCharsLoop replaceChars replaceWith removed (front ++ rest) front.length =
      (removed || rest.any replaceChars.contains,
        front ++ rest.flatMap fun c => if replaceChars.contains c then replaceWith else [c]) := by
  induction rest generalizing removed front with
  | nil =>
    rw [List.append_nil, replaceCharsLoop, findFirstOf_nil]
    simp
  | cons c rest ih =>
    by_cases found : replaceChars.contains c
    · have replaced : (front ++ c :: rest).take front.length ++ replaceWith ++ (front ++ c :: rest).drop (front.length + 1) =
          front ++ replaceWith ++ rest := by
        rw [List.take_left' rfl, List.drop_append]
        simp
      rw [replaceCharsLoop, findFirstOf_cons, if_pos found]
      dsimp only
      rw [replaced, ← List.length_append, ih, List.any_cons, found, List.flatMap_cons, if_pos found, Bool.true_or,
        Bool.or_true, List.append_assoc]
    · have passed : replaceCharsLoop replaceChars replaceWith removed (front ++ c :: rest) front.length =
          replaceCharsLoop replaceChars replaceWith removed (front ++ [c] ++ rest) (front ++ [c]).length := by
        have same : front ++ c :: rest = front ++ [c] ++ rest := by simp
        rw [replaceCharsLoop, findFirstOf_cons, if_neg found, replaceCharsLoop, same]
      rw [passed, ih, List.any_cons, Bool.eq_false_iff.mpr found, List.flatMap_cons, if_neg found, Bool.false_or,
        List.append_assoc]

/-- Every character in the set is replaced, and the result says whether there was one. -/
theorem replaceCharsT_eq (input : List α) :
    replaceCharsT input replaceChars replaceWith =
      (input.any replaceChars.contains,
        input.flatMap fun c => if replaceChars.contains c then replaceWith else [c]) :=
  replaceCharsLoop_eq false [] input

theorem isSome_findFirstOf (text s : List α) : (findFirstOf text s 0).isSome = text.any s.contains := by
  have general : ∀ front rest : List α, (findFirstOf (front ++ rest) s front.length).isSome = rest.any s.contains := by
    intro front rest
    induction rest generalizing front with
    | nil =>
      rw [List.append_nil, findFirstOf_nil]
      rfl
    | cons c rest ih =>
      rw [findFirstOf_cons, List.any_cons]
      split
      next found => rw [found, Bool.true_or, Option.isSome_some]
      next missed => rw [Bool.eq_false_iff.mpr missed, Bool.false_or, ih]
  exact general [] text

end Libchrome.Base.Strings
