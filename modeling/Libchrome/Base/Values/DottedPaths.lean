import Libchrome.Base.Values.KeyPaths

/-! `Set`, `Get`, `Remove` and `RemovePath` by what the keys of their paths lead to. -/

namespace Libchrome.Base.Values
open Library Bytes NumberConversions Json

variable {D : Type} {doubles : Doubles D}

/-! ### Putting a value where keys lead -/

/-- The tree with `new` where the keys lead; dictionaries on the way are made where there are none. -/
def put : List Key → Value D → Value D → Value D
  | [], new, _ => new
  | key :: keys, new, old =>
    .dictionary (setWithoutPathExpansion (entriesOf old) key
      (put keys new ((getWithoutPathExpansion (entriesOf old) key).getD .null)))

/-- Neither list of keys goes on from the other. -/
def Apart (keys others : List Key) : Prop := ¬ keys <+: others ∧ ¬ others <+: keys

variable {keys others : List Key}

theorem Apart.tail {key : Key} (apart : Apart (key :: keys) (key :: others)) : Apart keys others :=
  ⟨fun before => apart.1 (List.prefix_cons_inj key |>.mpr before),
    fun before => apart.2 (List.prefix_cons_inj key |>.mpr before)⟩

theorem Built.childOr {entries : Entries D} (built : Built doubles (.dictionary entries)) (key : Key) :
    Built doubles ((getWithoutPathExpansion entries key).getD .null) := by
  cases found : getWithoutPathExpansion entries key with
  | none => exact .null
  | some child => exact built.entry found

variable {old : Value D}

theorem Built.put {new : Value D} (newBuilt : Built doubles new) (built : Built doubles old) (keys : List Key) :
    Built doubles (put keys new old) := by
  induction keys generalizing old with
  | nil => exact newBuilt
  | cons key keys ih => exact built.entriesOf.set key (ih (built.entriesOf.childOr key))

theorem follow_put_append (built : Built doubles old) (keys more : List Key) (new : Value D) :
    follow (keys ++ more) (put keys new old) = follow more new := by
  induction keys generalizing old with
  | nil => rfl
  | cons key keys ih =>
    rw [List.cons_append, follow_cons, put, entriesOf_dictionary, get_set built.entriesOf.ascending, if_pos rfl,
      Option.bind_some]
    exact ih (built.entriesOf.childOr key)

theorem follow_put_apart (built : Built doubles old) (new : Value D) (apart : Apart others keys) :
    follow others (put keys new old) = follow others old := by
  induction keys generalizing old others with
  | nil => exact absurd List.nil_prefix apart.2
  | cons key keys ih =>
    cases others with
    | nil => exact absurd List.nil_prefix apart.1
    | cons other others =>
      rw [follow_cons, follow_cons, put, entriesOf_dictionary, get_set built.entriesOf.ascending]
      split
      next same =>
        subst same
        have further := apart.tail
        have nonempty : others ≠ [] := fun none => further.1 (none ▸ List.nil_prefix)
        rw [Option.bind_some, ih (built.entriesOf.childOr other) further]
        cases getWithoutPathExpansion (entriesOf old) other with
        | none => exact follow_empty nonempty rfl
        | some child => rfl
      next => rfl

theorem follow_put_above (built : Built doubles old) {above rest : List Key} (nonempty : rest ≠ []) (new : Value D) :
    ∃ entries, follow above (put (above ++ rest) new old) = some (.dictionary entries) := by
  induction above generalizing old with
  | nil =>
    cases rest with
    | nil => exact absurd rfl nonempty
    | cons key keys => exact ⟨_, rfl⟩
  | cons key above ih =>
    obtain ⟨entries, found⟩ := ih (built.entriesOf.childOr key)
    exact ⟨entries, by
      rw [List.cons_append, follow_cons, put, entriesOf_dictionary, get_set built.entriesOf.ascending, if_pos rfl,
        Option.bind_some, found]⟩

theorem put_dictionary (nonempty : keys ≠ []) (new old : Value D) :
    put keys new (.dictionary (entriesOf old)) = put keys new old := by
  cases keys with
  | nil => exact absurd rfl nonempty
  | cons key keys => rfl

/-! ### Paths as keys -/

theorem get_eq (entries : Entries D) (path : List Byte) :
    get entries path = follow (components path) (.dictionary entries) := by
  fun_induction get entries path with
  | case1 entries path missing =>
    rw [components_of_find_none missing, follow_singleton, entriesOf_dictionary]
  | case2 entries path position found missing =>
    have nonempty := components_ne_nil (path.drop (position + 1))
    rw [components_of_find found, follow_cons, entriesOf_dictionary]
    cases child : getWithoutPathExpansion entries (path.take position) with
    | none => rfl
    | some child =>
      rw [getDictionaryWithoutPathExpansion, child, Option.bind_some] at missing
      rw [Option.bind_some, follow_empty nonempty]
      rw [entriesOf, missing, Option.getD_none]
  | case3 entries path position found child there ih =>
    obtain ⟨value, isThere, isDictionary⟩ := Option.bind_eq_some_iff.mp there
    rw [components_of_find found, follow_cons, entriesOf_dictionary, isThere, Option.bind_some, ih,
      asDictionary_eq_some.mp isDictionary]

theorem get_of_no_delimiter (entries : Entries D) {key : List Byte} (absent : components key = [key]) :
    get entries key = getWithoutPathExpansion entries key := by
  rw [get_eq, absent, follow_singleton, entriesOf_dictionary]

variable {path : List Byte}

theorem components_take {position : Nat} (found : find path = some position) :
    components (path.take position) = [path.take position] := by
  obtain ⟨inside, _, before⟩ := List.findIdx?_eq_some_iff_getElem.mp found
  apply components_of_no_delimiter
  intro member
  obtain ⟨i, small, same⟩ := List.getElem_of_mem member
  rw [List.getElem_take] at same
  exact before i (by rw [List.length_take] at small; omega) (by simp [same])

theorem getDictionary_take (entries : Entries D) {position : Nat} (found : find path = some position) :
    getDictionary entries (path.take position) = getDictionaryWithoutPathExpansion entries (path.take position) := by
  rw [getDictionary, get_of_no_delimiter entries (components_take found)]
  rfl

theorem set_eq (entries : Entries D) (path : List Byte) (value : Value D) :
    Value.dictionary (set entries path value) = put (components path) value (.dictionary entries) := by
  fun_induction set entries path value with
  | case1 entries path missing =>
    rw [components_of_find_none missing]
    rfl
  | case2 entries path position found child ih =>
    have below : Value.dictionary child =
        .dictionary (entriesOf ((getWithoutPathExpansion entries (path.take position)).getD .null)) := by
      simp only [child, getDictionary_take entries found, getDictionaryWithoutPathExpansion]
      cases getWithoutPathExpansion entries (path.take position) <;> rfl
    rw [components_of_find found, put, ih, below, put_dictionary (components_ne_nil _)]
    rfl

theorem assign_eq {entries : Entries D} (there : get entries path = some old) (value : Value D) :
    Value.dictionary (assign entries path value) = put (components path) value (.dictionary entries) := by
  fun_induction assign entries path value with
  | case1 entries path missing =>
    rw [components_of_find_none missing]
    rfl
  | case2 entries path position found missing =>
    rw [get, found] at there
    simp only [missing, reduceCtorEq] at there
  | case3 entries path position found child below ih =>
    obtain ⟨value, isThere, isDictionary⟩ := Option.bind_eq_some_iff.mp below
    have further : get child (path.drop (position + 1)) = some old := by
      rw [get, found] at there
      simpa only [below] using there
    rw [components_of_find found, put, ih further, entriesOf_dictionary, isThere, Option.getD_some,
      asDictionary_eq_some.mp isDictionary]

/-! ### Removal -/

theorem components_of_rfind_none (missing : rfind path = none) : components path = [path] := by
  apply components_of_no_delimiter
  intro member
  have each := List.findIdx?_eq_none_iff.mp (Option.map_eq_none_iff.mp missing) (ascii '.') (List.mem_reverse.mpr member)
  exact absurd each (by simp)

theorem components_of_rfind {position : Nat} (found : rfind path = some position) :
    components path = components (path.take position) ++ [path.drop (position + 1)] := by
  obtain ⟨fromEnd, reversed, rfl⟩ := Option.map_eq_some_iff.mp found
  obtain ⟨small, delimiter, before⟩ := List.findIdx?_eq_some_iff_getElem.mp reversed
  rw [List.length_reverse] at small
  have inside : path.length - 1 - fromEnd < path.length := by omega
  rw [List.getElem_reverse] at delimiter
  have absent : ascii '.' ∉ path.drop (path.length - 1 - fromEnd + 1) := by
    intro member
    obtain ⟨i, within, same⟩ := List.getElem_of_mem member
    rw [List.length_drop] at within
    rw [List.getElem_drop] at same
    apply before (path.length - 1 - (path.length - 1 - fromEnd + 1 + i)) (by omega)
    rw [List.getElem_reverse]
    simp only [decide_eq_true_eq]
    rw [← same]
    congr 1
    omega
  calc components path
      = components (path.take (path.length - 1 - fromEnd) ++ ascii '.' :: path.drop (path.length - 1 - fromEnd + 1)) := by
        rw [← eq_of_delimiter inside (of_decide_eq_true delimiter)]
    _ = components (path.take (path.length - 1 - fromEnd)) ++ [path.drop (path.length - 1 - fromEnd + 1)] := by
        rw [components_append, components_of_no_delimiter absent]

/-- The tree without the entry of one key of the dictionary that the keys lead to. -/
def cut (front : List Key) (last : Key) (value : Value D) : Value D :=
  match (follow front value).bind asDictionary with
  | none => value
  | some entries => put front (.dictionary (removeWithoutPathExpansion entries last).1) value

theorem follow_concat (front : List Key) (last : Key) (value : Value D) :
    follow (front ++ [last]) value = ((follow front value).bind asDictionary).bind (getWithoutPathExpansion · last) := by
  rw [follow_append]
  cases follow front value with
  | none => rfl
  | some child =>
    rw [Option.bind_some, Option.bind_some, follow_singleton, entriesOf]
    cases asDictionary child <;> rfl

theorem remove_eq (entries : Entries D) (path : List Byte) :
    ∃ front last, components path = front ++ [last] ∧
      Value.dictionary (remove entries path).1 = cut front last (.dictionary entries) ∧
      (remove entries path).2 = follow (components path) (.dictionary entries) := by
  cases found : rfind path with
  | none =>
    refine ⟨[], path, components_of_rfind_none found, ?_, ?_⟩
    · rw [remove, found]
      rfl
    · rw [remove, found, components_of_rfind_none found, follow_singleton]
      rfl
  | some position =>
    refine ⟨_, _, components_of_rfind found, ?_, ?_⟩
    · rw [remove, found, cut, ← get_eq, ← getDictionary]
      cases above : getDictionary entries (path.take position) with
      | none => simp only [above]
      | some current =>
        obtain ⟨old, there, _⟩ := Option.bind_eq_some_iff.mp above
        simp only [above]
        exact assign_eq there _
    · rw [components_of_rfind found, follow_concat, ← get_eq, ← getDictionary, remove, found]
      cases above : getDictionary entries (path.take position) with
      | none => simp only [above, Option.bind_none]
      | some current => simp only [above, Option.bind_some, removeWithoutPathExpansion]

variable {value : Value D}

theorem Built.cut (built : Built doubles value) (front : List Key) (last : Key) :
    Built doubles (cut front last value) := by
  rw [Values.cut]
  split
  next => exact built
  next entries there =>
    obtain ⟨child, found, isDictionary⟩ := Option.bind_eq_some_iff.mp there
    have childBuilt : Built doubles (.dictionary entries) :=
      asDictionary_eq_some.mp isDictionary ▸ built.follow found
    exact (childBuilt.remove last).put built front

/-- What the loss of the entry where the keys lead makes of a tree. -/
structure Loses (keys : List Key) (before after : Value D) : Prop where
  gone : ∀ more, follow (keys ++ more) after = none
  others : ∀ others, Apart others keys → follow others after = follow others before
  above : ∀ above rest, keys = above ++ rest → rest ≠ [] → ∃ entries, follow above after = some (.dictionary entries)

theorem put_same {child : Value D} (built : Built doubles value) (there : follow keys value = some child) :
    put keys child value = value := by
  induction keys generalizing value with
  | nil => exact (Option.some.inj there).symm
  | cons key keys ih =>
    obtain ⟨next, found, further⟩ := Option.bind_eq_some_iff.mp there
    rw [put, found, Option.getD_some, ih (built.entriesOf.entry found) further, set_same built.entriesOf.ascending found,
      dictionary_entriesOf found]

variable {front : List Key}

theorem cut_absent (built : Built doubles value) {last : Key} (absent : follow (front ++ [last]) value = none) :
    cut front last value = value := by
  rw [follow_concat] at absent
  rw [cut]
  cases there : (follow front value).bind asDictionary with
  | none => rfl
  | some entries =>
    obtain ⟨child, found, isDictionary⟩ := Option.bind_eq_some_iff.mp there
    rw [asDictionary_eq_some] at isDictionary
    subst isDictionary
    rw [there, Option.bind_some] at absent
    dsimp only
    rw [remove_absent (built.follow found).ascending absent, put_same built found]

/-- Keys apart from a longer list are apart from its front, or go on from it with another key. -/
theorem Apart.concat {last : Key} (apart : Apart others (front ++ [last])) :
    Apart others front ∨ ∃ key more, others = front ++ key :: more ∧ key ≠ last := by
  by_cases further : front <+: others
  · obtain ⟨more, rfl⟩ := further
    cases more with
    | nil =>
      rw [List.append_nil] at apart
      exact absurd (List.prefix_append front [last]) apart.1
    | cons key more =>
      refine .inr ⟨key, more, rfl, ?_⟩
      rintro rfl
      exact apart.2 ((List.prefix_append_right_inj front).mpr (List.cons_prefix_cons.mpr ⟨rfl, List.nil_prefix⟩))
  · exact .inl ⟨fun before => apart.1 (before.trans (List.prefix_append front [last])), further⟩

theorem cut_loses {removed : Value D} (built : Built doubles value) {last : Key}
    (there : follow (front ++ [last]) value = some removed) : Loses (front ++ [last]) value (cut front last value) := by
  rw [follow_concat] at there
  obtain ⟨entries, above, inside⟩ := Option.bind_eq_some_iff.mp there
  obtain ⟨child, found, isDictionary⟩ := Option.bind_eq_some_iff.mp above
  rw [asDictionary_eq_some] at isDictionary
  subst isDictionary
  have ascending := (built.follow found).ascending
  have result : cut front last value = put front (.dictionary (removeWithoutPathExpansion entries last).1) value := by
    rw [cut, above]
  rw [result]
  constructor
  · intro more
    rw [List.append_assoc, follow_put_append built, List.singleton_append, follow_cons, entriesOf_dictionary,
      get_remove ascending, if_pos rfl, Option.bind_none]
  · intro others apart
    rcases apart.concat with elsewhere | ⟨key, more, rfl, different⟩
    · exact follow_put_apart built _ elsewhere
    · rw [follow_put_append built, follow_append, found, Option.bind_some, follow_cons, follow_cons,
        entriesOf_dictionary, entriesOf_dictionary, get_remove ascending, if_neg different]
  · intro between rest same nonempty
    rcases List.eq_nil_or_concat rest with rfl | ⟨rest, final, rfl⟩
    · exact absurd rfl nonempty
    · rw [List.concat_eq_append, ← List.append_assoc] at same
      obtain ⟨rfl, _⟩ := List.append_inj' same rfl
      cases rest with
      | nil =>
        rw [List.append_nil]
        exact ⟨_, by rw [← follow_nil (Value.dictionary _), ← follow_put_append built between [], List.append_nil]⟩
      | cons key rest => exact follow_put_above built (List.cons_ne_nil key rest) _

end Libchrome.Base.Values
