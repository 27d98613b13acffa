import Libchrome.Base.Values.DottedPaths

/-! The ancestors that `RemovePath` prunes, and the laws of dotted paths together. -/

namespace Libchrome.Base.Values
open Library Bytes NumberConversions Json

variable {D : Type} {doubles : Doubles D}

/-! ### Pruning -/

/-- The tree without the entry that the keys lead to, nor the dictionaries that hold nothing else. -/
def prune : List Key → Value D → Value D
  | [], value => value
  | key :: keys, value =>
    match (getWithoutPathExpansion (entriesOf value) key).bind (follow keys) with
    | none => value
    | some _ =>
      let child := (getWithoutPathExpansion (entriesOf value) key).getD .null
      if keys = [] ∨ entriesOf (prune keys child) = [] then
        .dictionary (removeWithoutPathExpansion (entriesOf value) key).1
      else .dictionary (setWithoutPathExpansion (entriesOf value) key (prune keys child))

variable {keys : List Key} {value : Value D}

theorem prune_absent (absent : follow keys value = none) : prune keys value = value := by
  cases keys with
  | nil => rfl
  | cons key keys =>
    rw [follow_cons] at absent
    rw [prune, absent]

variable {removed : Value D}

theorem prune_cons {key : Key} {child : Value D} (found : getWithoutPathExpansion (entriesOf value) key = some child)
    (there : follow keys child = some removed) :
    prune (key :: keys) value =
      if keys = [] ∨ entriesOf (prune keys child) = [] then .dictionary (removeWithoutPathExpansion (entriesOf value) key).1
      else .dictionary (setWithoutPathExpansion (entriesOf value) key (prune keys child)) := by
  rw [prune, found, Option.bind_some, there, Option.getD_some]

theorem Built.prune (built : Built doubles value) (keys : List Key) : Built doubles (prune keys value) := by
  induction keys generalizing value with
  | nil => exact built
  | cons key keys ih =>
    cases there : Values.follow (key :: keys) value with
    | none =>
      rw [prune_absent there]
      exact built
    | some removed =>
      obtain ⟨child, found, further⟩ := Option.bind_eq_some_iff.mp there
      rw [prune_cons found further]
      split
      · exact built.entriesOf.remove key
      · exact built.entriesOf.set key (ih (built.entriesOf.entry found))

variable {entries : Entries D}

theorem prune_level {subdict left : Entries D} {path : List Byte} {position : Nat} {outValue : Option (Value D)}
    (found : find path = some position)
    (there : getWithoutPathExpansion entries (path.take position) = some (.dictionary subdict))
    (pruned : Value.dictionary left = prune (components (path.drop (position + 1))) (.dictionary subdict))
    (out : outValue = follow (components (path.drop (position + 1))) (.dictionary subdict)) :
    outValue = follow (components path) (.dictionary entries) ∧
      (outValue.isSome → prune (components path) (.dictionary entries) =
        if left = [] then .dictionary (removeWithoutPathExpansion entries (path.take position)).1
        else .dictionary (setWithoutPathExpansion entries (path.take position) (.dictionary left))) := by
  have here : getWithoutPathExpansion (entriesOf (.dictionary entries)) (path.take position) = some (.dictionary subdict) :=
    there
  rw [components_of_find found]
  constructor
  · rw [out, follow_cons, here, Option.bind_some]
  · intro success
    obtain ⟨removed, isThere⟩ := Option.isSome_iff_exists.mp success
    rw [prune_cons here (out.symm.trans isThere), ← pruned, entriesOf_dictionary, entriesOf_dictionary]
    simp only [components_ne_nil, false_or]

theorem removePath_eq (built : Built doubles (.dictionary entries)) (path : List Byte) :
    Value.dictionary (removePath entries path).1 = prune (components path) (.dictionary entries) ∧
      (removePath entries path).2 = follow (components path) (.dictionary entries) := by
  fun_induction removePath entries path with
  | case1 entries path missing =>
    rw [components_of_find_none missing, follow_singleton]
    refine ⟨?_, rfl⟩
    cases there : getWithoutPathExpansion entries path with
    | none =>
      rw [prune_absent (by rw [follow_singleton, entriesOf_dictionary, there]), remove_absent built.ascending there]
    | some child =>
      have here : getWithoutPathExpansion (entriesOf (.dictionary entries)) path = some child := there
      rw [prune_cons here (follow_nil child), if_pos (.inl rfl), entriesOf_dictionary]
  | case2 entries path position found subdictPath missing =>
    have absent : follow (components path) (.dictionary entries) = none := by
      rw [← get_eq, get, found]
      simp only [← getDictionary_take entries found, missing, subdictPath]
    exact ⟨by rw [prune_absent absent], absent.symm⟩
  | case3 entries path position found subdictPath subdict there left outValue removed emptied ih =>
    rw [getDictionary_take entries found] at there
    obtain ⟨child, isThere, isDictionary⟩ := Option.bind_eq_some_iff.mp there
    rw [asDictionary_eq_some] at isDictionary
    subst isDictionary
    rw [removed] at ih
    obtain ⟨pruned, out⟩ := ih (built.entry isThere)
    obtain ⟨result, level⟩ := prune_level found isThere pruned out
    rw [Bool.and_eq_true, List.isEmpty_iff] at emptied
    rw [level emptied.1, if_pos emptied.2]
    exact ⟨rfl, result⟩
  | case4 entries path position found subdictPath subdict there left outValue removed kept ih =>
    rw [getDictionary_take entries found] at there
    obtain ⟨child, isThere, isDictionary⟩ := Option.bind_eq_some_iff.mp there
    rw [asDictionary_eq_some] at isDictionary
    subst isDictionary
    rw [removed] at ih
    obtain ⟨pruned, out⟩ := ih (built.entry isThere)
    obtain ⟨result, level⟩ := prune_level found isThere pruned out
    refine ⟨?_, result⟩
    cases success : outValue with
    | some value =>
      rw [success, Option.isSome_some, Bool.true_and, List.isEmpty_iff] at kept
      rw [level (by rw [success]; rfl), if_neg kept]
    | none =>
      -- Nothing was there below, and the dictionary below is set to itself.
      have absentBelow : follow (components (path.drop (position + 1))) (.dictionary subdict) = none :=
        out.symm.trans success
      have absent : follow (components path) (.dictionary entries) = none := result.symm.trans success
      rw [prune_absent absentBelow] at pruned
      rw [prune_absent absent, pruned, set_same built.ascending isThere]

/-! ### What pruning leaves -/

theorem apart_of_ne {key other : Key} (different : other ≠ key) (keys others : List Key) :
    Apart (other :: others) (key :: keys) :=
  ⟨fun before => different (List.cons_prefix_cons.mp before).1,
    fun before => different (List.cons_prefix_cons.mp before).1.symm⟩

theorem Apart.cons {keys others : List Key} (apart : Apart others keys) (key : Key) :
    Apart (key :: others) (key :: keys) :=
  ⟨fun before => apart.1 ((List.prefix_cons_inj key).mp before),
    fun before => apart.2 ((List.prefix_cons_inj key).mp before)⟩

theorem Apart.exists_cons {key : Key} {others : List Key} (apart : Apart others (key :: keys)) :
    ∃ other more, others = other :: more ∧ (other = key → Apart more keys) := by
  cases others with
  | nil => exact absurd List.nil_prefix apart.1
  | cons other more => exact ⟨other, more, rfl, fun same => (same ▸ apart : Apart (key :: more) (key :: keys)).tail⟩

theorem remove_eq_nil (ascending : Ascending entries) (key : Key) :
    (removeWithoutPathExpansion entries key).1 = [] ↔
      ∀ other, other ≠ key → getWithoutPathExpansion entries other = none := by
  rw [eq_nil_iff]
  simp only [get_remove ascending]
  constructor
  · intro each other different
    simpa only [if_neg different] using each other
  · intro each other
    split
    next => rfl
    next different => exact each other different

theorem set_ne_nil (ascending : Ascending entries) (key : Key) (value : Value D) :
    setWithoutPathExpansion entries key value ≠ [] := by
  intro empty
  have there := get_set ascending key key value
  rw [empty, if_pos rfl] at there
  cases there

theorem prune_eq_nil (nonempty : keys ≠ []) (built : Built doubles value) (there : follow keys value = some removed) :
    entriesOf (prune keys value) = [] ↔ ∀ others, Apart others keys → follow others value = none := by
  induction keys generalizing value with
  | nil => exact absurd rfl nonempty
  | cons key keys ih =>
    obtain ⟨child, found, further⟩ := Option.bind_eq_some_iff.mp there
    have ascending := built.entriesOf.ascending
    have below : keys ≠ [] →
        (entriesOf (prune keys child) = [] ↔ ∀ others, Apart others keys → follow others child = none) :=
      fun more => ih more (built.entriesOf.entry found) further
    rw [prune_cons found further]
    constructor
    · intro empty others apart
      split at empty
      next alone =>
        rw [entriesOf_dictionary, remove_eq_nil ascending] at empty
        obtain ⟨other, more, rfl, furtherApart⟩ := apart.exists_cons
        by_cases same : other = key
        · subst same
          rcases alone with rfl | emptied
          · exact absurd List.nil_prefix (furtherApart rfl).2
          · rw [follow_cons, found, Option.bind_some]
            by_cases last : keys = []
            · exact absurd (last ▸ List.nil_prefix) (furtherApart rfl).2
            · exact (below last).mp emptied more (furtherApart rfl)
        · rw [follow_cons, empty other same, Option.bind_none]
      next => exact absurd empty (set_ne_nil ascending key _)
    · intro each
      have alone : keys = [] ∨ entriesOf (prune keys child) = [] := by
        by_cases last : keys = []
        · exact .inl last
        · refine .inr ((below last).mpr fun others apart => ?_)
          have nothing := each (key :: others) (apart.cons key)
          rwa [follow_cons, found, Option.bind_some] at nothing
      rw [if_pos alone, entriesOf_dictionary, remove_eq_nil ascending]
      intro other different
      have nothing := each [other] (apart_of_ne different keys [])
      rwa [follow_singleton] at nothing

theorem follow_prune_apart (built : Built doubles value) (there : follow keys value = some removed)
    {others : List Key} (apart : Apart others keys) : follow others (prune keys value) = follow others value := by
  induction keys generalizing value others with
  | nil => exact absurd List.nil_prefix apart.2
  | cons key keys ih =>
    obtain ⟨child, found, further⟩ := Option.bind_eq_some_iff.mp there
    obtain ⟨other, more, rfl, furtherApart⟩ := apart.exists_cons
    have ascending := built.entriesOf.ascending
    have childBuilt := built.entriesOf.entry found
    rw [prune_cons found further, follow_cons, follow_cons]
    split
    next alone =>
      rw [entriesOf_dictionary, get_remove ascending]
      split
      next same =>
        subst same
        rw [found, Option.bind_none, Option.bind_some]
        by_cases last : keys = []
        · exact absurd (last ▸ List.nil_prefix) (furtherApart rfl).2
        · exact ((prune_eq_nil last childBuilt further).mp (alone.resolve_left last) more (furtherApart rfl)).symm
      next => rfl
    next =>
      rw [entriesOf_dictionary, get_set ascending]
      split
      next same =>
        subst same
        rw [found, Option.bind_some, Option.bind_some, ih childBuilt further (furtherApart rfl)]
      next => rfl

theorem follow_prune_append (nonempty : keys ≠ []) (built : Built doubles value)
    (there : follow keys value = some removed) (more : List Key) :
    follow (keys ++ more) (prune keys value) = none := by
  induction keys generalizing value with
  | nil => exact absurd rfl nonempty
  | cons key keys ih =>
    obtain ⟨child, found, further⟩ := Option.bind_eq_some_iff.mp there
    have ascending := built.entriesOf.ascending
    rw [prune_cons found further, List.cons_append, follow_cons]
    split
    next => rw [entriesOf_dictionary, get_remove ascending, if_pos rfl, Option.bind_none]
    next kept =>
      rw [entriesOf_dictionary, get_set ascending, if_pos rfl, Option.bind_some]
      exact ih (fun last => kept (.inl last)) (built.entriesOf.entry found) further

/-- All that is below `above` lies on the way to the entry that the keys lead to, or in it. -/
def Alone (value : Value D) (above keys : List Key) : Prop :=
  ∀ others, above <+: others → Apart others keys → follow others value = none

theorem prune_eq_dictionary (nonempty : keys ≠ []) (there : follow keys value = some removed) :
    prune keys value = .dictionary (entriesOf (prune keys value)) := by
  cases keys with
  | nil => exact absurd rfl nonempty
  | cons key keys =>
    obtain ⟨child, found, further⟩ := Option.bind_eq_some_iff.mp there
    rw [prune_cons found further]
    split <;> rfl

/-- An ancestor of the entry goes if it is left with nothing, and stays a dictionary otherwise. -/
theorem follow_prune_above {above rest : List Key} (aboveNonempty : above ≠ []) (restNonempty : rest ≠ [])
    (built : Built doubles value) (there : follow (above ++ rest) value = some removed) :
    (Alone value above (above ++ rest) → follow above (prune (above ++ rest) value) = none) ∧
      (¬ Alone value above (above ++ rest) →
        ∃ entries, follow above (prune (above ++ rest) value) = some (.dictionary entries)) := by
  induction above generalizing value with
  | nil => exact absurd rfl aboveNonempty
  | cons key above ih =>
    rw [List.cons_append] at there ⊢
    obtain ⟨child, found, further⟩ := Option.bind_eq_some_iff.mp there
    have ascending := built.entriesOf.ascending
    have childBuilt := built.entriesOf.entry found
    have notLast : above ++ rest ≠ [] := fun none => restNonempty (List.append_eq_nil_iff.mp none).2
    have alone : Alone value (key :: above) (key :: (above ++ rest)) ↔ Alone child above (above ++ rest) := by
      constructor
      · intro each others below apart
        have nothing := each (key :: others) ((List.prefix_cons_inj key).mpr below) (apart.cons key)
        rwa [follow_cons, found, Option.bind_some] at nothing
      · intro each others below apart
        obtain ⟨more, rfl⟩ := below
        rw [List.cons_append, follow_cons, found, Option.bind_some]
        exact each (above ++ more) (List.prefix_append above more) apart.tail
    rw [alone, prune_cons found further, follow_cons]
    split
    next emptied =>
      have each := (prune_eq_nil notLast childBuilt further).mp (emptied.resolve_left notLast)
      rw [entriesOf_dictionary, get_remove ascending, if_pos rfl, Option.bind_none]
      exact ⟨fun _ => rfl, fun kept => absurd (fun others _ apart => each others apart) kept⟩
    next kept =>
      rw [entriesOf_dictionary, get_set ascending, if_pos rfl, Option.bind_some]
      cases above with
      | nil =>
        have notEmptied : ¬ entriesOf (prune rest child) = [] := fun emptied => kept (.inr emptied)
        rw [List.nil_append] at further ⊢
        refine ⟨fun single => ?_, fun _ => ⟨_, by rw [follow_nil, prune_eq_dictionary restNonempty further]⟩⟩
        exact absurd ((prune_eq_nil restNonempty childBuilt further).mpr fun others apart =>
          single others List.nil_prefix apart) notEmptied
      | cons other above => exact ih (List.cons_ne_nil other above) childBuilt further

/-! ### The laws -/

/-- Without the entry, nothing is left below `above` but dictionaries on the way to where the entry was. -/
def BecameEmpty (left : Value D) (above keys : List Key) : Prop :=
  ∀ others, above <+: others → (follow others left).isSome → others <+: keys

/-- What becomes of the ancestors of a lost entry when those go that became empty. -/
structure Prunes (keys : List Key) (left after : Value D) : Prop where
  gone : follow keys after = none
  others : ∀ others, ¬ others <+: keys → follow others after = follow others left
  emptied : ∀ above rest, keys = above ++ rest → above ≠ [] → rest ≠ [] → BecameEmpty left above keys →
    follow above after = none
  kept : ∀ above rest, keys = above ++ rest → above ≠ [] → rest ≠ [] → ¬ BecameEmpty left above keys →
    ∃ entries, follow above after = some (.dictionary entries)

theorem Loses.becameEmpty_iff {before left : Value D} (loses : Loses keys before left) (above : List Key) :
    BecameEmpty left above keys ↔ Alone before above keys := by
  constructor
  · intro became others below apart
    cases found : follow others before with
    | none => rfl
    | some value =>
      have there : (follow others left).isSome := by
        rw [loses.others others apart, found]
        rfl
      exact absurd (became others below there) apart.1
  · intro alone others below there
    by_contra outside
    by_cases further : keys <+: others
    · obtain ⟨more, rfl⟩ := further
      rw [loses.gone more] at there
      cases there
    · have apart : Apart others keys := ⟨outside, further⟩
      rw [loses.others others apart, alone others below apart] at there
      cases there

theorem prune_prunes (nonempty : keys ≠ []) {before left : Value D} (built : Built doubles before)
    (there : follow keys before = some removed) (loses : Loses keys before left) :
    Prunes keys left (prune keys before) where
  gone := by
    rw [← follow_prune_append nonempty built there [], List.append_nil]
  others others outside := by
    by_cases further : keys <+: others
    · obtain ⟨more, rfl⟩ := further
      rw [follow_prune_append nonempty built there, loses.gone]
    · rw [follow_prune_apart built there ⟨outside, further⟩, loses.others others ⟨outside, further⟩]
  emptied above rest split aboveNonempty restNonempty became := by
    have alone := (loses.becameEmpty_iff above).mp became
    subst split
    exact (follow_prune_above aboveNonempty restNonempty built there).1 alone
  kept above rest split aboveNonempty restNonempty notBecame := by
    have notAlone := fun alone => notBecame ((loses.becameEmpty_iff above).mpr alone)
    subst split
    exact (follow_prune_above aboveNonempty restNonempty built there).2 notAlone

namespace DictionaryValue

variable (dictionary : DictionaryValue doubles) (path : List Byte)

def get : Option (Value D) := Values.get dictionary.entries path

def set (value : { value : Value D // Built doubles value }) : DictionaryValue doubles where
  entries := Values.set dictionary.entries path value
  built := set_eq dictionary.entries path value.1 ▸ value.2.put dictionary.built (components path)

def remove : DictionaryValue doubles × Option (Value D) where
  fst.entries := (Values.remove dictionary.entries path).1
  fst.built := by
    obtain ⟨front, last, -, tree, -⟩ := remove_eq dictionary.entries path
    exact tree ▸ dictionary.built.cut front last
  snd := (Values.remove dictionary.entries path).2

def removePath : DictionaryValue doubles × Option (Value D) where
  fst.entries := (Values.removePath dictionary.entries path).1
  fst.built := (removePath_eq dictionary.built path).1 ▸ dictionary.built.prune (components path)
  snd := (Values.removePath dictionary.entries path).2

/-- The laws that relate the four operations at a path. -/
structure PathLaws (value : { value : Value D // Built doubles value }) : Prop where
  get_components : dictionary.get path = follow (components path) dictionary.tree
  get_set : (dictionary.set path value).get path = some value.1
  get_set_apart : ∀ other, Apart (components other) (components path) →
    (dictionary.set path value).get other = dictionary.get other
  remove_out : (dictionary.remove path).2 = dictionary.get path
  remove_absent : dictionary.get path = none → (dictionary.remove path).1 = dictionary
  remove_loses : (dictionary.get path).isSome → Loses (components path) dictionary.tree (dictionary.remove path).1.tree
  removePath_out : (dictionary.removePath path).2 = dictionary.get path
  removePath_absent : dictionary.get path = none → (dictionary.removePath path).1 = dictionary
  removePath_prunes : (dictionary.get path).isSome →
    Prunes (components path) (dictionary.remove path).1.tree (dictionary.removePath path).1.tree

theorem get_eq_follow : dictionary.get path = follow (components path) dictionary.tree :=
  get_eq dictionary.entries path

theorem tree_set (value : { value : Value D // Built doubles value }) :
    (dictionary.set path value).tree = put (components path) value.1 dictionary.tree :=
  set_eq dictionary.entries path value.1

theorem tree_removePath : (dictionary.removePath path).1.tree = prune (components path) dictionary.tree :=
  (removePath_eq dictionary.built path).1

theorem dotted_paths (value : { value : Value D // Built doubles value }) : dictionary.PathLaws path value := by
  obtain ⟨front, last, split, tree, out⟩ := remove_eq dictionary.entries path
  have loses {removed : Value D} (there : follow (components path) dictionary.tree = some removed) :
      Loses (components path) dictionary.tree (dictionary.remove path).1.tree := by
    rw [split] at there ⊢
    exact (congrArg (Loses (front ++ [last]) dictionary.tree) tree).mpr (cut_loses dictionary.built there)
  constructor
  case get_components => exact dictionary.get_eq_follow path
  case get_set =>
    have put := follow_put_append dictionary.built (components path) [] value.1
    rw [List.append_nil] at put
    rw [get_eq_follow, tree_set]
    exact put
  case get_set_apart =>
    intro other apart
    rw [get_eq_follow, get_eq_follow, tree_set]
    exact follow_put_apart dictionary.built value.1 apart
  case remove_out => exact out.trans (dictionary.get_eq_follow path).symm
  case remove_absent =>
    intro absent
    rw [get_eq_follow, split] at absent
    exact eq_of_tree (tree.trans (cut_absent dictionary.built absent))
  case remove_loses =>
    intro there
    obtain ⟨removed, found⟩ := Option.isSome_iff_exists.mp there
    exact loses ((dictionary.get_eq_follow path).symm.trans found)
  case removePath_out => exact (removePath_eq dictionary.built path).2.trans (dictionary.get_eq_follow path).symm
  case removePath_absent =>
    intro absent
    rw [get_eq_follow] at absent
    exact eq_of_tree ((dictionary.tree_removePath path).trans (prune_absent absent))
  case removePath_prunes =>
    intro there
    obtain ⟨removed, found⟩ := Option.isSome_iff_exists.mp there
    rw [get_eq_follow] at found
    rw [tree_removePath]
    exact prune_prunes (components_ne_nil path) dictionary.built found (loses found)

end DictionaryValue

end Libchrome.Base.Values
