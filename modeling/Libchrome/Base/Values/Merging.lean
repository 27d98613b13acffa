import Libchrome.Base.Values.KeyPaths

/-! `MergeDictionary` (`values.cc`). -/

namespace Libchrome.Base.Values
open Library Bytes NumberConversions Json

variable {D : Type} [Zero D]

section Model

variable (doubles : Doubles D)

mutual

/-- The loop of `MergeDictionary` over what is left of `dictionary`. -/
def mergeDictionary (entries : Entries D) : Entries D → Entries D
  | [] => entries
  | (key, mergeValue) :: rest =>
    mergeDictionary
      (setWithoutPathExpansion entries key (mergeInto (getWithoutPathExpansion entries key) mergeValue)) rest

/-- What becomes of the value under a key: a dictionary is merged into a dictionary in place. -/
def mergeInto (old : Option (Value D)) : Value D → Value D
  | .dictionary mergeValue =>
    match old.bind asDictionary with
    | some subDict => .dictionary (mergeDictionary subDict mergeValue)
    | none => deepCopy doubles (.dictionary mergeValue)
  | mergeValue => deepCopy doubles mergeValue

end

end Model

variable {doubles : Doubles D}

/-! ### One key -/

variable {old : Option (Value D)}

theorem mergeInto_of_leaf {value : Value D} (built : Built doubles value) (leaf : asDictionary value = none) :
    mergeInto doubles old value = value := by
  cases value with
  | dictionary entries => cases leaf
  | _ => rw [mergeInto, deepCopy_eq built]; nofun

theorem mergeInto_of_none {value : Value D} (built : Built doubles value) (none : old.bind asDictionary = none) :
    mergeInto doubles old value = value := by
  cases value with
  | dictionary entries => rw [mergeInto, none, deepCopy_eq built]
  | _ => exact mergeInto_of_leaf built rfl

variable {entries : Entries D}

theorem mergeInto_dictionary {mergeValue : Entries D} (there : old.bind asDictionary = some entries) :
    mergeInto doubles old (.dictionary mergeValue) = .dictionary (mergeDictionary doubles entries mergeValue) := by
  rw [mergeInto, there]

/-- What merging makes of what is under a key in the two dictionaries. -/
def merged (doubles : Doubles D) (old mergeValue : Option (Value D)) : Option (Value D) :=
  match mergeValue with
  | none => old
  | some value => some (mergeInto doubles old value)

theorem mergeDictionary_ascending (ascending : Ascending entries) (dictionary : Entries D) :
    Ascending (mergeDictionary doubles entries dictionary) := by
  induction dictionary generalizing entries with
  | nil =>
    rw [mergeDictionary]
    exact ascending
  | cons entry rest ih =>
    rw [mergeDictionary]
    exact ih (set_ascending ascending entry.1 _)

theorem get_merge {dictionary : Entries D} (ascending : Ascending entries) (otherAscending : Ascending dictionary)
    (key : Key) :
    getWithoutPathExpansion (mergeDictionary doubles entries dictionary) key =
      merged doubles (getWithoutPathExpansion entries key) (getWithoutPathExpansion dictionary key) := by
  induction dictionary generalizing entries with
  | nil =>
    rw [mergeDictionary]
    rfl
  | cons entry rest ih =>
    obtain ⟨first, later⟩ := List.pairwise_cons.mp otherAscending
    rw [mergeDictionary, ih (set_ascending ascending entry.1 _) later, get_set ascending, get_cons]
    by_cases here : entry.1 = key
    · subst here
      rw [get_tail otherAscending, if_pos rfl, if_pos rfl]
      rfl
    · rw [if_neg here, if_neg (Ne.symm here)]

theorem merged_none_left {mergeValue : Option (Value D)} (built : ∀ value, mergeValue = some value → Built doubles value) :
    merged doubles none mergeValue = mergeValue := by
  cases mergeValue with
  | none => rfl
  | some value => exact congrArg some (mergeInto_of_none (built value rfl) rfl)

theorem Built.mergeEach {dictionary : Entries D} (built : Built doubles (.dictionary entries))
    (each : ∀ entry ∈ dictionary, ∀ old, BuiltIfAny doubles old → Built doubles (mergeInto doubles old entry.2)) :
    Built doubles (.dictionary (mergeDictionary doubles entries dictionary)) := by
  induction dictionary generalizing entries with
  | nil =>
    rw [Values.mergeDictionary]
    exact built
  | cons entry rest ih =>
    rw [Values.mergeDictionary]
    apply ih
    · exact built.set entry.1 (each entry List.mem_cons_self _ (built.get entry.1))
    · intro other member
      exact each other (List.mem_cons_of_mem entry member)

theorem Built.mergeInto {value : Value D} (built : Built doubles value) (oldBuilt : BuiltIfAny doubles old) :
    Built doubles (mergeInto doubles old value) := by
  induction value, built using Built.dictionaries generalizing old with
  | leaf value built leaf =>
    rw [mergeInto_of_leaf built leaf]
    exact built
  | dictionary dictionary built ih =>
    cases there : old.bind Values.asDictionary with
    | none =>
      rw [mergeInto_of_none built there]
      exact built
    | some entries =>
      rw [mergeInto_dictionary there]
      apply (oldBuilt.asDictionary there).mergeEach
      intro entry member before beforeBuilt
      exact ih entry.1 entry.2 (get_of_mem built.ascending member) beforeBuilt

theorem merged_built {mergeValue : Option (Value D)} (oldBuilt : BuiltIfAny doubles old)
    (built : BuiltIfAny doubles mergeValue) : BuiltIfAny doubles (merged doubles old mergeValue) := by
  cases mergeValue with
  | none => exact oldBuilt
  | some value =>
    intro there same
    rw [← Option.some.inj same]
    exact (built value rfl).mergeInto oldBuilt

theorem Built.mergeDictionary {dictionary : Entries D} (built : Built doubles (.dictionary entries))
    (otherBuilt : Built doubles (.dictionary dictionary)) :
    Built doubles (.dictionary (mergeDictionary doubles entries dictionary)) := by
  have whole : Values.mergeInto doubles (some (.dictionary entries)) (.dictionary dictionary) =
      .dictionary (Values.mergeDictionary doubles entries dictionary) := mergeInto_dictionary rfl
  rw [← whole]
  exact otherBuilt.mergeInto fun value same => Option.some.inj same ▸ built

/-! What merging copies and keeps, merging again, and merging three dictionaries in either order. -/

variable {D : Type} [Zero D] {doubles : Doubles D}

/-! ### Along keys -/

variable {keys : List Key} {old : Option (Value D)} {value : Value D}

theorem follow_mergeInto {found : Value D} (built : Built doubles value) (oldBuilt : BuiltIfAny doubles old)
    (there : follow keys value = some found)
    (copied : asDictionary found = none ∨ (old.bind (follow keys)).bind asDictionary = none) :
    follow keys (mergeInto doubles old value) = some found := by
  induction keys generalizing old value with
  | nil =>
    cases Option.some.inj there
    rcases copied with leaf | none
    · rw [mergeInto_of_leaf built leaf, follow_nil]
    · have missing : old.bind asDictionary = Option.none := by
        cases old with
        | none => rfl
        | some value => exact none
      rw [mergeInto_of_none built missing, follow_nil]
  | cons key keys ih =>
    obtain ⟨child, here, further⟩ := Option.bind_eq_some_iff.mp there
    cases below : old.bind asDictionary with
    | none => rw [mergeInto_of_none built below, there]
    | some entries =>
      obtain ⟨dictionary, rfl, isDictionary⟩ := Option.bind_eq_some_iff.mp below
      rw [asDictionary_eq_some] at isDictionary
      subst isDictionary
      have entriesBuilt := oldBuilt.asDictionary below
      rw [← dictionary_entriesOf here, mergeInto_dictionary below, follow_cons, entriesOf_dictionary,
        get_merge entriesBuilt.ascending built.entriesOf.ascending, here, merged, Option.bind_some]
      exact ih (built.entriesOf.entry here) (entriesBuilt.get key) further copied

omit [Zero D] in
theorem bind_follow_of_leaf (leaf : old.bind asDictionary = none) (nonempty : keys ≠ []) :
    old.bind (follow keys) = none := by
  cases old with
  | none => rfl
  | some value =>
    rw [Option.bind_some] at leaf ⊢
    apply follow_empty nonempty
    rw [entriesOf, leaf, Option.getD_none]

theorem follow_mergeInto_absent {dictionary : Entries D} (built : Built doubles value)
    (oldBuilt : BuiltIfAny doubles old) (there : follow keys value = some (.dictionary dictionary)) {key : Key}
    (absent : getWithoutPathExpansion dictionary key = none) (more : List Key) :
    follow (keys ++ key :: more) (mergeInto doubles old value) = old.bind (follow (keys ++ key :: more)) := by
  have lacking : follow (keys ++ key :: more) value = none := by
    rw [follow_append, there, Option.bind_some, follow_cons, entriesOf_dictionary, absent, Option.bind_none]
  have nonempty : keys ++ key :: more ≠ [] := List.append_ne_nil_of_right_ne_nil keys (List.cons_ne_nil key more)
  induction keys generalizing old value with
  | nil =>
    cases Option.some.inj there
    cases below : old.bind asDictionary with
    | none => rw [mergeInto_of_none built below, lacking, bind_follow_of_leaf below nonempty]
    | some entries =>
      obtain ⟨other, rfl, isDictionary⟩ := Option.bind_eq_some_iff.mp below
      rw [asDictionary_eq_some] at isDictionary
      subst isDictionary
      rw [mergeInto_dictionary below, List.nil_append, Option.bind_some, follow_cons, follow_cons, entriesOf_dictionary,
        entriesOf_dictionary, get_merge (oldBuilt.asDictionary below).ascending built.ascending, absent, merged]
  | cons first keys ih =>
    obtain ⟨child, here, further⟩ := Option.bind_eq_some_iff.mp there
    cases below : old.bind asDictionary with
    | none => rw [mergeInto_of_none built below, lacking, bind_follow_of_leaf below nonempty]
    | some entries =>
      obtain ⟨other, rfl, isDictionary⟩ := Option.bind_eq_some_iff.mp below
      rw [asDictionary_eq_some] at isDictionary
      subst isDictionary
      have entriesBuilt := oldBuilt.asDictionary below
      rw [← dictionary_entriesOf here, mergeInto_dictionary below, List.cons_append, Option.bind_some, follow_cons,
        follow_cons, entriesOf_dictionary, entriesOf_dictionary,
        get_merge entriesBuilt.ascending built.entriesOf.ascending, here, merged, Option.bind_some]
      rw [List.cons_append, follow_cons, here, Option.bind_some] at lacking
      exact ih (built.entriesOf.entry here) (entriesBuilt.get first) further lacking
        (List.append_ne_nil_of_right_ne_nil keys (List.cons_ne_nil key more))

/-! ### Merging again -/

theorem mergeInto_again (built : Built doubles value) (oldBuilt : BuiltIfAny doubles old) :
    mergeInto doubles (some (mergeInto doubles old value)) value = mergeInto doubles old value := by
  induction value, built using Built.dictionaries generalizing old with
  | leaf value built leaf => rw [mergeInto_of_leaf built leaf, mergeInto_of_leaf built leaf]
  | dictionary dictionary built ih =>
    -- What is left to show is that the merged entries stay as they are under each key of the dictionary.
    have stays {entries : Entries D} (entriesBuilt : Built doubles (.dictionary entries))
        (each : ∀ key value, getWithoutPathExpansion dictionary key = some value →
          ∃ before, BuiltIfAny doubles before ∧ getWithoutPathExpansion entries key = some (mergeInto doubles before value)) :
        mergeDictionary doubles entries dictionary = entries := by
      apply entries_ext (mergeDictionary_ascending entriesBuilt.ascending dictionary) entriesBuilt.ascending
      intro key
      rw [get_merge entriesBuilt.ascending built.ascending]
      cases found : getWithoutPathExpansion dictionary key with
      | none => rfl
      | some value =>
        obtain ⟨before, beforeBuilt, here⟩ := each key value found
        rw [merged, here, ih key value found beforeBuilt]
    cases below : old.bind asDictionary with
    | none =>
      rw [mergeInto_of_none built below, mergeInto_dictionary rfl, stays built]
      intro key value found
      refine ⟨none, nofun, ?_⟩
      rw [found, mergeInto_of_none (built.entry found) rfl]
    | some entries =>
      have entriesBuilt := oldBuilt.asDictionary below
      rw [mergeInto_dictionary below, mergeInto_dictionary rfl, stays (entriesBuilt.mergeDictionary built)]
      intro key value found
      refine ⟨_, entriesBuilt.get key, ?_⟩
      rw [get_merge entriesBuilt.ascending built.ascending, found, merged]

/-! ### Merging in either order -/

/-- Where the first and the last have dictionaries and the one between has not, merging leaves the last as it is. -/
def Agreed (doubles : Doubles D) (former : Option (Value D)) (between latter : Value D) : Prop :=
  ∀ keys first leaf last, former.bind (follow keys) = some (.dictionary first) → follow keys between = some leaf →
    asDictionary leaf = none → follow keys latter = some (.dictionary last) →
      equals doubles (.dictionary last) (.dictionary (mergeDictionary doubles first last)) = true

omit [Zero D] in
theorem not_follow_dictionary (leaf : asDictionary value = none) {entries : Entries D}
    (there : follow keys value = some (.dictionary entries)) : False := by
  have missing : (some value).bind asDictionary = none := leaf
  cases keys with
  | nil =>
    cases Option.some.inj there
    cases leaf
  | cons key keys =>
    have nothing := bind_follow_of_leaf missing (List.cons_ne_nil key keys)
    rw [Option.bind_some, there] at nothing
    cases nothing

variable {former : Option (Value D)} {between : Value D}

theorem agreed_of_leaf {latter : Value D} (leaf : asDictionary latter = none) :
    Agreed doubles former between latter := by
  intro keys first other last _ _ _ there
  exact (not_follow_dictionary leaf there).elim

theorem agreed_of_none {latter : Value D} (none : former.bind asDictionary = none) :
    Agreed doubles former between latter := by
  intro keys first other last there _ _ _
  cases former with
  | none => cases there
  | some value => exact (not_follow_dictionary none there).elim

theorem agreed_leaf_between {first last : Entries D} {leaf : Value D} (isLeaf : asDictionary leaf = none) :
    Agreed doubles (some (.dictionary first)) leaf (.dictionary last) ↔
      equals doubles (.dictionary last) (.dictionary (mergeDictionary doubles first last)) = true := by
  constructor
  · intro agreed
    exact agreed [] first leaf last rfl rfl isLeaf rfl
  · intro same keys other between final there here _ further
    cases keys with
    | nil =>
      cases Option.some.inj there
      cases Option.some.inj further
      exact same
    | cons key keys =>
      have nothing : follow (key :: keys) leaf = none := by
        apply follow_empty (List.cons_ne_nil key keys)
        rw [entriesOf, isLeaf, Option.getD_none]
      rw [nothing] at here
      cases here

theorem agreed_dictionaries {first middle last : Entries D} :
    Agreed doubles (some (.dictionary first)) (.dictionary middle) (.dictionary last) ↔
      ∀ key between latter, getWithoutPathExpansion middle key = some between →
        getWithoutPathExpansion last key = some latter →
          Agreed doubles (getWithoutPathExpansion first key) between latter := by
  constructor
  · intro agreed key between latter here further keys entries leaf final there below isLeaf above
    apply agreed (key :: keys) entries leaf final there _ isLeaf
    · rw [follow_cons, entriesOf_dictionary, further, Option.bind_some, above]
    · rw [follow_cons, entriesOf_dictionary, here, Option.bind_some, below]
  · intro each keys entries leaf final there below isLeaf above
    cases keys with
    | nil =>
      cases Option.some.inj below
      cases isLeaf
    | cons key keys =>
      obtain ⟨between, here, belowRest⟩ := Option.bind_eq_some_iff.mp below
      obtain ⟨latter, further, aboveRest⟩ := Option.bind_eq_some_iff.mp above
      exact each key between latter here further keys entries leaf final there belowRest isLeaf aboveRest

omit [Zero D] in
theorem equals_option_self {value : Option (Value D)} (built : BuiltIfAny doubles value) :
    Option.Rel (fun value other => equals doubles value other = true) value value := by
  cases value with
  | none => exact .none
  | some value => exact .some (built value rfl).equals_self

theorem mergeInto_assoc_iff {latter : Value D} (latterBuilt : Built doubles latter)
    (betweenBuilt : Built doubles between) (formerBuilt : BuiltIfAny doubles former) :
    equals doubles (mergeInto doubles (some (mergeInto doubles former between)) latter)
        (mergeInto doubles former (mergeInto doubles (some between) latter)) = true ↔
      Agreed doubles former between latter := by
  induction latter, latterBuilt using Built.dictionaries generalizing between former with
  | leaf latter built leaf =>
    rw [mergeInto_of_leaf built leaf, mergeInto_of_leaf built leaf, mergeInto_of_leaf built leaf]
    exact iff_of_true built.equals_self (agreed_of_leaf leaf)
  | dictionary last built ih =>
    cases isDictionary : asDictionary between with
    | none =>
      have notBetween : (some between).bind asDictionary = none := isDictionary
      rw [mergeInto_of_leaf betweenBuilt isDictionary, mergeInto_of_none built notBetween]
      cases above : former.bind asDictionary with
      | none =>
        rw [mergeInto_of_none built above]
        exact iff_of_true built.equals_self (agreed_of_none above)
      | some first =>
        obtain ⟨value, rfl, isFirst⟩ := Option.bind_eq_some_iff.mp above
        rw [asDictionary_eq_some] at isFirst
        subst isFirst
        rw [mergeInto_dictionary above, agreed_leaf_between isDictionary]
    | some middle =>
      rw [asDictionary_eq_some] at isDictionary
      subst isDictionary
      have inner := betweenBuilt.mergeDictionary built
      rw [mergeInto_dictionary (rfl : (some (Value.dictionary middle)).bind asDictionary = some middle)]
      cases above : former.bind asDictionary with
      | none =>
        rw [mergeInto_of_none betweenBuilt above, mergeInto_of_none inner above,
          mergeInto_dictionary (rfl : (some (Value.dictionary middle)).bind asDictionary = some middle)]
        exact iff_of_true inner.equals_self (agreed_of_none above)
      | some first =>
        obtain ⟨value, rfl, isFirst⟩ := Option.bind_eq_some_iff.mp above
        rw [asDictionary_eq_some] at isFirst
        subst isFirst
        have firstBuilt := formerBuilt.asDictionary above
        have outer := firstBuilt.mergeDictionary betweenBuilt
        rw [mergeInto_dictionary above, mergeInto_dictionary rfl, mergeInto_dictionary above, agreed_dictionaries,
          equals_dictionary_iff (outer.mergeDictionary built).ascending (firstBuilt.mergeDictionary inner).ascending]
        apply forall_congr'
        intro key
        rw [get_merge outer.ascending built.ascending, get_merge firstBuilt.ascending betweenBuilt.ascending,
          get_merge firstBuilt.ascending inner.ascending, get_merge betweenBuilt.ascending built.ascending]
        have keyBuilt := firstBuilt.get key
        cases here : getWithoutPathExpansion middle key with
        | none =>
          rw [merged_none_left (built.get key), merged]
          refine iff_of_true (equals_option_self ?_) (fun between latter there => absurd there (Option.some_ne_none _).symm)
          exact merged_built keyBuilt (built.get key)
        | some between =>
          cases further : getWithoutPathExpansion last key with
          | none =>
            have middleBuilt : BuiltIfAny doubles (some between) := here ▸ betweenBuilt.get key
            refine iff_of_true (equals_option_self ?_) (fun _ latter _ there => absurd there (Option.some_ne_none _).symm)
            exact merged_built (merged_built keyBuilt middleBuilt) nofun
          | some latter =>
            have level := ih key latter further (betweenBuilt.entry here) keyBuilt
            rw [merged, merged, merged, merged, Option.rel_some_some, level]
            constructor
            · intro agreed _ _ sameBetween sameLatter
              rw [← Option.some.inj sameBetween, ← Option.some.inj sameLatter]
              exact agreed
            · intro agreed
              exact agreed between latter rfl rfl

/-! ### Dictionaries -/

namespace DictionaryValue

/-- `MergeDictionary`, which leaves its argument alone and copies what it takes over. -/
def mergeDictionary (this dictionary : DictionaryValue doubles) : DictionaryValue doubles where
  entries := Values.mergeDictionary doubles this.entries dictionary.entries
  built := this.built.mergeDictionary dictionary.built

/-- What merging a dictionary into this one does. -/
structure MergeLaws (this dictionary : DictionaryValue doubles) : Prop where
  copied : ∀ keys value, follow keys dictionary.tree = some value →
    asDictionary value = none ∨ (follow keys this.tree).bind asDictionary = none →
      follow keys (this.mergeDictionary dictionary).tree = some (deepCopy doubles value) ∧
        equals doubles (deepCopy doubles value) value = true
  kept : ∀ keys entries key, follow keys dictionary.tree = some (.dictionary entries) →
    getWithoutPathExpansion entries key = none → ∀ more,
      follow (keys ++ key :: more) (this.mergeDictionary dictionary).tree = follow (keys ++ key :: more) this.tree
  again : (this.mergeDictionary dictionary).mergeDictionary dictionary = this.mergeDictionary dictionary

variable (this dictionary latter : DictionaryValue doubles)

theorem tree_mergeDictionary :
    (this.mergeDictionary dictionary).tree = mergeInto doubles (some this.tree) dictionary.tree :=
  (mergeInto_dictionary rfl).symm

theorem mergeDictionary_merges : this.MergeLaws dictionary ∧
    (equals doubles ((this.mergeDictionary dictionary).mergeDictionary latter).tree
        (this.mergeDictionary (dictionary.mergeDictionary latter)).tree = true ↔
      Agreed doubles (some this.tree) dictionary.tree latter.tree) := by
  constructor
  · constructor
    case copied =>
      intro keys value there copied
      have valueBuilt := dictionary.built.follow there
      rw [tree_mergeDictionary, deepCopy_eq valueBuilt]
      exact ⟨follow_mergeInto dictionary.built this.builtIfAny_tree there copied, valueBuilt.equals_self⟩
    case kept =>
      intro keys entries key there absent more
      rw [tree_mergeDictionary]
      exact follow_mergeInto_absent dictionary.built this.builtIfAny_tree there absent more
    case again =>
      apply eq_of_tree
      rw [tree_mergeDictionary, tree_mergeDictionary]
      exact mergeInto_again dictionary.built this.builtIfAny_tree
  · rw [tree_mergeDictionary, tree_mergeDictionary, tree_mergeDictionary, tree_mergeDictionary]
    exact mergeInto_assoc_iff latter.built dictionary.built this.builtIfAny_tree

end DictionaryValue

/-! ### A value between dictionaries -/

/-- Doubles that are integers. -/
def integers : Doubles Int where
  stringToDouble _ := none
  isFinite _ := true
  doubleToString _ := []
  toInt64 := some
  same lhs rhs := lhs == rhs
  same_self lhs _ := beq_self_eq_true lhs

/-- A dictionary with one entry. -/
def DictionaryValue.single (key : Key) (value : { value : Value D // Built doubles value }) : DictionaryValue doubles where
  entries := [(key, value.1)]
  built := .dictionary _ (List.pairwise_singleton _ _) fun _ member => List.mem_singleton.mp member ▸ value.2

/-- The dictionary of the last hides that of the first only where they are merged one after the other. -/
theorem not_mergeDictionary_assoc : ¬ ∀ former between latter : DictionaryValue integers,
    equals integers ((former.mergeDictionary between).mergeDictionary latter).tree
      (former.mergeDictionary (between.mergeDictionary latter)).tree = true := by
  intro assoc
  let inner : DictionaryValue integers := .single [0x78] ⟨.boolean true, .boolean true⟩
  have same := assoc (.single [0x6b] ⟨inner.tree, inner.built⟩) (.single [0x6b] ⟨.null, .null⟩)
    (.single [0x6b] ⟨.dictionary [], .empty⟩)
  revert same
  decide

end Libchrome.Base.Values
