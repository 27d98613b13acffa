import Libchrome.Base.Strings.PatternMatching
import Libchrome.Base.Strings.StringTokenizer
import Mathlib.Data.List.Perm.Basic

/-! The category groups that a `TraceConfig` enables (`trace_config.cc`). -/

namespace Libchrome.Base.TraceEvent
open Library.Bytes Strings NumberConversions

abbrev StringList := List (List Byte)

structure TraceConfig where
  included_categories_ : StringList
  disabled_categories_ : StringList
  excluded_categories_ : StringList

/-- The characters before the first zero, which are those that a `const char*` passes on. -/
def cStr (s : List Byte) : List Byte := s.takeWhile (· ≠ 0)

/-- `MatchPattern` of two C strings. -/
def matchPattern (string pattern : List Byte) : Bool :=
  Pattern.matchPattern Pattern.nextCharUTF8 (cStr string) (cStr pattern)

/-- `TRACE_DISABLED_BY_DEFAULT("*")`. -/
def disabledByDefault : List Byte := "disabled-by-default-*".toList.map ascii

/-- The tokens between the commas. -/
def categoryGroupTokens (category_group_name : List Byte) : Option StringList :=
  let tokenizer : StringTokenizer Byte := ⟨category_group_name, [ascii ','], [], 0⟩
  tokenizer.tokensFrom (tokenizer.getNext (ascii '\\')) (category_group_name.length + 1) .init

namespace TraceConfig

def isEmptyOrContainsLeadingOrTrailingWhitespace (str : List Byte) : Bool :=
  str = [] ∨ str.head? = some (ascii ' ') ∨ str.getLast? = some (ascii ' ')

variable (config : TraceConfig)

def isCategoryEnabled (category_name : List Byte) : Bool :=
  if config.disabled_categories_.any fun ci => matchPattern category_name ci then true
  else if matchPattern category_name disabledByDefault then false
  else config.included_categories_.any fun ci => matchPattern category_name ci

/-- The first loop: whether it returned true, and `had_enabled_by_default`; `none` where its check fails. -/
def firstPass (had_enabled_by_default : Bool) : StringList → Option (Bool × Bool)
  | [] => some (false, had_enabled_by_default)
  | category_group_token :: rest =>
    if isEmptyOrContainsLeadingOrTrailingWhitespace category_group_token then none
    else if config.isCategoryEnabled category_group_token then some (true, had_enabled_by_default)
    else firstPass (had_enabled_by_default || !matchPattern category_group_token disabledByDefault) rest

/-- The inner loop of the second pass, over the patterns that are left. -/
def scanExcluded (category_group_token : List Byte) (category_group_disabled : Bool) : StringList → Bool
  | [] => category_group_disabled
  | ci :: rest =>
    if matchPattern category_group_token ci then true
    else scanExcluded category_group_token
      (if matchPattern category_group_token disabledByDefault then category_group_disabled else false) rest

/-- The second loop, with `category_group_disabled`. -/
def secondPass (category_group_disabled : Bool) : StringList → Bool
  | [] => category_group_disabled
  | category_group_token :: rest =>
    let category_group_disabled :=
      scanExcluded category_group_token category_group_disabled config.excluded_categories_
    if category_group_disabled then secondPass category_group_disabled rest else category_group_disabled

def isCategoryGroupEnabled (category_group_name : List Byte) : Option Bool :=
  (categoryGroupTokens (cStr category_group_name)).bind fun tokens =>
    (config.firstPass false tokens).map fun first =>
      if first.1 then true
      else !config.secondPass false tokens && config.included_categories_.isEmpty && first.2

end TraceConfig

/-! ### Groups and their names -/

/-- A name is not empty, has no surrounding spaces and can stand between commas in a C string. -/
structure Proper (name : List Byte) : Prop where
  trimmed : TraceConfig.isEmptyOrContainsLeadingOrTrailingWhitespace name = false
  whole : ∀ c ∈ name, c ≠ ascii ',' ∧ c ≠ 0

def group (names : StringList) : List Byte := [ascii ','].intercalate names

theorem Proper.ne_nil {name : List Byte} (proper : Proper name) : name ≠ [] := by
  rintro rfl
  cases proper.trimmed

theorem cStr_eq {s : List Byte} (whole : ∀ c ∈ s, c ≠ 0) : cStr s = s :=
  List.takeWhile_eq_self_iff.mpr fun c member => decide_eq_true (whole c member)

theorem group_cons (name second : List Byte) (rest : StringList) :
    group (name :: second :: rest) = name ++ ascii ',' :: group (second :: rest) := by
  rw [group, List.intercalate_cons_cons, List.append_assoc]
  rfl

theorem group_singleton (name : List Byte) : group [name] = name := List.intercalate_singleton

variable {names : StringList}

theorem group_ne_zero (proper : ∀ name ∈ names, Proper name) : ∀ c ∈ group names, c ≠ 0 := by
  induction names with
  | nil => exact fun c member => absurd member List.not_mem_nil
  | cons name rest ih =>
    have here := (proper name List.mem_cons_self).whole
    have behind := ih fun other member => proper other (List.mem_cons_of_mem name member)
    cases rest with
    | nil =>
      rw [group_singleton]
      exact fun c member => (here c member).2
    | cons second rest =>
      intro c member
      rw [group_cons, List.mem_append, List.mem_cons] at member
      rcases member with inside | rfl | later
      · exact (here c inside).2
      · decide
      · exact behind c later

theorem marked_append {name rest : List Byte} (whole : ∀ c ∈ name, c ≠ ascii ',') :
    marked [ascii ','] [] (ascii '\\') .outside (name ++ rest) =
      name.map (·, false) ++ marked [ascii ','] [] (ascii '\\') .outside rest := by
  induction name with
  | nil => rfl
  | cons c name ih =>
    have plain : ¬ ((Quoting.outside : Quoting Byte) = .outside ∧ [ascii ','].contains c = true) := fun separates =>
      whole c List.mem_cons_self (List.mem_singleton.mp (List.contains_iff_mem.mp separates.2))
    rw [List.cons_append, marked, if_neg plain, List.map_cons, List.cons_append]
    exact congrArg ((c, false) :: ·) (ih fun d member => whole d (List.mem_cons_of_mem c member))

theorem runs_name {name : List Byte} {rest : List (Byte × Bool)} (proper : Proper name)
    (ends : rest = [] ∨ ∃ c back, rest = (c, true) :: back) :
    runs (name.map (·, false) ++ rest) = name :: runs rest := by
  have unmarked : ∀ d ∈ name.map (·, false), d.2 = false := by
    intro d member
    obtain ⟨c, _, rfl⟩ := List.mem_map.mp member
    rfl
  rw [runs_append (mt List.map_eq_nil_iff.mp proper.ne_nil) unmarked ends, List.map_map]
  exact congrArg (· :: runs rest) (List.map_id name)

theorem runs_group (proper : ∀ name ∈ names, Proper name) :
    runs (marked [ascii ','] [] (ascii '\\') .outside (group names)) = names := by
  induction names with
  | nil => rfl
  | cons name rest ih =>
    have here := proper name List.mem_cons_self
    have behind := ih fun other member => proper other (List.mem_cons_of_mem name member)
    have plain : ∀ c ∈ name, c ≠ ascii ',' := fun c member => (here.whole c member).1
    cases rest with
    | nil =>
      have alone := @marked_append name [] plain
      rw [List.append_nil, marked] at alone
      rw [group_singleton, alone, runs_name here (.inl rfl)]
      rfl
    | cons second rest =>
      have comma : marked [ascii ','] [] (ascii '\\') .outside (ascii ',' :: group (second :: rest)) =
          (ascii ',', true) :: marked [ascii ','] [] (ascii '\\') .outside (group (second :: rest)) :=
        if_pos ⟨rfl, rfl⟩
      rw [group_cons, marked_append plain, comma, runs_name here (.inr ⟨_, _, rfl⟩), runs_separator, behind]

theorem categoryGroupTokens_group (proper : ∀ name ∈ names, Proper name) :
    categoryGroupTokens (group names) = some names := by
  let tokenizer : StringTokenizer Byte := ⟨group names, [ascii ','], [], 0⟩
  have off : tokenizer.options &&& returnDelims = 0 := show (0 : BitVec 32) &&& returnDelims = 0 from by decide
  have quick : tokenizer.getNext (ascii '\\') = tokenizer.fullGetNext (ascii '\\') :=
    funext fun token => (if_pos rfl).trans (StringTokenizer.quickGetNext_eq (ascii '\\') rfl off token)
  have run : tokenizer.tokensFrom (tokenizer.fullGetNext (ascii '\\')) ((group names).length + 1) .init =
      some (tokenizer.runsFrom (ascii '\\') 0) :=
    tokenizer.tokensFrom_runs (ascii '\\') off _ (Nat.zero_le _) (Nat.lt_succ_self _)
  rw [← quick] at run
  exact run.trans (congrArg some (runs_group proper))

/-! ### The passes -/

namespace TraceConfig

variable (config : TraceConfig)

/-- A name is excluded. -/
def Excluded (name : List Byte) : Bool := config.excluded_categories_.any fun ci => matchPattern name ci

/-- A name is excluded, or disabled by default. -/
def Passed (name : List Byte) : Bool := config.Excluded name || matchPattern name disabledByDefault

variable {names : StringList}

theorem firstPass_eq (proper : ∀ name ∈ names, Proper name) (had : Bool) :
    ∃ last, config.firstPass had names = some (names.any config.isCategoryEnabled, last) ∧
      (names.any config.isCategoryEnabled = false →
        last = (had || names.any fun name => !matchPattern name disabledByDefault)) := by
  induction names generalizing had with
  | nil => exact ⟨had, rfl, fun _ => (Bool.or_false had).symm⟩
  | cons name rest ih =>
    have checked := (proper name List.mem_cons_self).trimmed
    rw [firstPass, if_neg (Bool.eq_false_iff.mp checked), List.any_cons, List.any_cons]
    cases enabled : config.isCategoryEnabled name with
    | true => exact ⟨had, rfl, fun none => by cases none⟩
    | false =>
      rw [Bool.false_or, ← Bool.or_assoc]
      exact ih (fun other member => proper other (List.mem_cons_of_mem name member)) _

theorem scanExcluded_eq (name : List Byte) (disabled : Bool) (patterns : StringList) :
    scanExcluded name disabled patterns =
      ((patterns.any fun ci => matchPattern name ci) ||
        (disabled && (matchPattern name disabledByDefault || patterns.isEmpty))) := by
  induction patterns generalizing disabled with
  | nil => rw [scanExcluded, List.any_nil, List.isEmpty_nil, Bool.or_true, Bool.and_true, Bool.false_or]
  | cons ci rest ih =>
    rw [scanExcluded, ih, List.any_cons, List.isEmpty_cons]
    cases matchPattern name ci with
    | true => rfl
    | false =>
      cases matchPattern name disabledByDefault <;> simp

/-- Once a name was excluded, the pass goes on while names are excluded or disabled by default. -/
theorem secondPass_true (some_ : config.excluded_categories_ ≠ []) (names : StringList) :
    config.secondPass true names = names.all config.Passed := by
  induction names with
  | nil => rfl
  | cons name rest ih =>
    have patterns : config.excluded_categories_.isEmpty = false := List.isEmpty_eq_false_iff.mpr some_
    have here : scanExcluded name true config.excluded_categories_ = config.Passed name := by
      rw [scanExcluded_eq, patterns, Bool.or_false, Bool.true_and]
      rfl
    rw [secondPass, here, List.all_cons]
    cases config.Passed name with
    | true => exact ih
    | false => rfl

/-- The first name has to be excluded. -/
theorem secondPass_false (name : List Byte) (rest : StringList) :
    config.secondPass false (name :: rest) = (config.Excluded name && rest.all config.Passed) := by
  have here : scanExcluded name false config.excluded_categories_ = config.Excluded name := by
    rw [scanExcluded_eq, Bool.false_and, Bool.or_false]
    rfl
  rw [secondPass, here]
  cases excluded : config.Excluded name with
  | false => rfl
  | true =>
    refine config.secondPass_true (fun nothing => ?_) rest
    rw [Excluded, nothing] at excluded
    cases excluded

theorem isCategoryGroupEnabled_group (proper : ∀ name ∈ names, Proper name) :
    config.isCategoryGroupEnabled (group names) = some (names.any config.isCategoryEnabled ||
      (!config.secondPass false names && config.included_categories_.isEmpty &&
        names.any fun name => !matchPattern name disabledByDefault)) := by
  obtain ⟨last, first, had⟩ := config.firstPass_eq proper false
  rw [isCategoryGroupEnabled, cStr_eq (group_ne_zero proper), categoryGroupTokens_group proper, Option.bind_some, first,
    Option.map_some]
  cases enabled : names.any config.isCategoryEnabled with
  | true => rfl
  | false => rw [had enabled, Bool.false_or, if_neg Bool.false_ne_true, Bool.false_or]

/-- Where an excluded first name hides another one: no name is enabled, some name is enabled by default, and all names are
excluded or disabled by default, but some are not excluded. -/
structure Carries (names : StringList) : Prop where
  disabled : ∀ name ∈ names, config.isCategoryEnabled name = false
  nothing : config.included_categories_ = []
  default : ∃ name ∈ names, matchPattern name disabledByDefault = false
  passed : ∀ name ∈ names, config.Passed name = true
  open_ : ∃ name ∈ names, config.Excluded name = false

theorem Carries.perm {config : TraceConfig} {order : StringList} (carries : config.Carries names)
    (perm : order.Perm names) : config.Carries order where
  disabled := fun name member => carries.disabled name (perm.mem_iff.mp member)
  nothing := carries.nothing
  default := by
    obtain ⟨name, member, default⟩ := carries.default
    exact ⟨name, perm.mem_iff.mpr member, default⟩
  passed := fun name member => carries.passed name (perm.mem_iff.mp member)
  open_ := by
    obtain ⟨name, member, open_⟩ := carries.open_
    exact ⟨name, perm.mem_iff.mpr member, open_⟩

theorem passed_of_excluded {name : List Byte} (excluded : config.Excluded name = true) : config.Passed name = true := by
  rw [Passed, excluded, Bool.true_or]

/-- When an excluded first name hides nothing, the second pass looks for a name that is not excluded. -/
theorem secondPass_of_not_carries (free : ¬ config.Carries names)
    (disabled : names.any config.isCategoryEnabled = false) (nothing : config.included_categories_ = [])
    (default : (names.any fun name => !matchPattern name disabledByDefault) = true) :
    config.secondPass false names = names.all config.Excluded := by
  cases names with
  | nil => cases default
  | cons name rest =>
    rw [secondPass_false, List.all_cons]
    cases excluded : config.Excluded name with
    | false => rw [Bool.false_and, Bool.false_and]
    | true =>
      rw [Bool.true_and, Bool.true_and, Bool.eq_iff_iff, List.all_eq_true, List.all_eq_true]
      refine ⟨fun passed other member => ?_, fun all other member => config.passed_of_excluded (all other member)⟩
      by_contra open_
      obtain ⟨shown, member', default'⟩ := List.any_eq_true.mp default
      exact free {
        disabled := fun name member => Bool.eq_false_iff.mpr (List.any_eq_false.mp disabled name member)
        nothing := nothing
        default := ⟨shown, member', (Bool.not_eq_true' _).mp default'⟩
        passed := fun name member => (List.mem_cons.mp member).elim
          (fun same => config.passed_of_excluded (same ▸ excluded)) (passed name)
        open_ := ⟨other, List.mem_cons_of_mem name member, Bool.eq_false_iff.mpr open_⟩ }

/-- Otherwise the group is enabled if a name is, or if it has a name that is not excluded and one that is enabled by
default, and nothing is included. -/
theorem isCategoryGroupEnabled_of_not_carries (proper : ∀ name ∈ names, Proper name) (free : ¬ config.Carries names) :
    config.isCategoryGroupEnabled (group names) =
      some (names.any config.isCategoryEnabled || (!names.all config.Excluded && config.included_categories_.isEmpty &&
        names.any fun name => !matchPattern name disabledByDefault)) := by
  rw [config.isCategoryGroupEnabled_group proper]
  cases enabled : names.any config.isCategoryEnabled with
  | true => rw [Bool.true_or, Bool.true_or]
  | false =>
    cases nothing : config.included_categories_.isEmpty with
    | false => rw [Bool.and_false, Bool.and_false]
    | true =>
      cases default : names.any fun name => !matchPattern name disabledByDefault with
      | false => rw [Bool.and_false, Bool.and_false]
      | true =>
        rw [config.secondPass_of_not_carries free enabled (List.isEmpty_iff.mp nothing) default]

/-- The answer is the same for all orders of the names, unless an excluded first name hides one that is not excluded. -/
theorem isCategoryGroupEnabled_perm_iff {names : StringList} (proper : ∀ name ∈ names, Proper name) :
    (∀ order : StringList, order.Perm names →
      config.isCategoryGroupEnabled (group order) = config.isCategoryGroupEnabled (group names)) ↔
      ¬ config.Carries names := by
  constructor
  · intro same carries
    have first {name : List Byte} (member : name ∈ names) := same _ (List.perm_cons_erase member).symm
    have each {order : StringList} (perm : order.Perm names) :
        config.isCategoryGroupEnabled (group order) = some (!config.secondPass false order) := by
      have carries := carries.perm perm
      have none : order.any config.isCategoryEnabled = false :=
        List.any_eq_false.mpr fun name member => Bool.eq_false_iff.mp (carries.disabled name member)
      have default : (order.any fun name => !matchPattern name disabledByDefault) = true := by
        obtain ⟨name, member, default⟩ := carries.default
        exact List.any_eq_true.mpr ⟨name, member, by rw [default]; rfl⟩
      rw [config.isCategoryGroupEnabled_group fun name member => proper name (perm.mem_iff.mp member), none, default,
        carries.nothing]
      rw [List.isEmpty_nil, Bool.and_true, Bool.and_true, Bool.false_or]
    obtain ⟨shown, member, default⟩ := carries.default
    obtain ⟨other, member', open_⟩ := carries.open_
    have excluded : config.Excluded shown = true := by
      have passed := carries.passed shown member
      rwa [Passed, default, Bool.or_false] at passed
    have hidden := first member
    have visible := first member'
    rw [each (List.perm_cons_erase member).symm, secondPass_false, excluded] at hidden
    rw [each (List.perm_cons_erase member').symm, secondPass_false, open_] at visible
    have all : (names.erase shown).all config.Passed = true :=
      List.all_eq_true.mpr fun name member => carries.passed name (List.mem_of_mem_erase member)
    rw [all] at hidden
    cases hidden.trans visible.symm
  · intro free order perm
    have free' : ¬ config.Carries order := fun carries => free (carries.perm perm.symm)
    rw [config.isCategoryGroupEnabled_of_not_carries proper free,
      config.isCategoryGroupEnabled_of_not_carries (fun name member => proper name (perm.mem_iff.mp member)) free',
      perm.any_eq, perm.any_eq, perm.all_eq]

/-- A group of an excluded name and one that is not. -/
theorem isCategoryGroupEnabled_perm_two :
    (⟨[], [], [[ascii 'a']]⟩ : TraceConfig).isCategoryGroupEnabled (group [[ascii 'b'], [ascii 'a']]) =
      (⟨[], [], [[ascii 'a']]⟩ : TraceConfig).isCategoryGroupEnabled (group [[ascii 'a'], [ascii 'b']]) := by
  have proper : ∀ name ∈ [[ascii 'a'], [ascii 'b']], Proper name := by
    intro name member
    rcases List.mem_pair.mp member with rfl | rfl
    · exact ⟨by decide, by decide⟩
    · exact ⟨by decide, by decide⟩
  have every := (isCategoryGroupEnabled_perm_iff ⟨[], [], [[ascii 'a']]⟩ proper).mpr fun carries =>
    absurd (carries.passed [ascii 'b'] (by decide)) (by decide +kernel)
  exact every _ (List.Perm.swap _ _ _)

/-- An excluded name before one that is disabled by default disables the group, and behind it does not. -/
theorem isCategoryGroupEnabled_order :
    ¬ ∀ (config : TraceConfig) (names order : StringList), (∀ name ∈ names, Proper name) → order.Perm names →
      config.isCategoryGroupEnabled (group order) = config.isCategoryGroupEnabled (group names) := by
  intro same
  have proper : ∀ name ∈ [[ascii 'a'], "disabled-by-default-x".toList.map ascii], Proper name := by
    intro name member
    rcases List.mem_pair.mp member with rfl | rfl
    · exact ⟨by decide, by decide⟩
    · exact ⟨by decide, by decide⟩
  exact absurd (same ⟨[], [], [[ascii 'a']]⟩ _ _ proper (List.Perm.swap _ _ _)) (by decide +kernel)

end TraceConfig

end Libchrome.Base.TraceEvent
