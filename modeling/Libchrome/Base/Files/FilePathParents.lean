import Libchrome.Base.Files.FilePath
import Mathlib.Data.List.Infix

/-!
# Parents of paths

`Append` works on the strings of paths, `AppendRelativePath` and `ReferencesParent` on their components.
-/

namespace Libchrome.Base.FilePath

open Library Bytes

/-- The value of a `FilePath` that is made from a string. -/
def construct (path : StringType) : StringType := path.takeWhile (· ≠ kStringTerminator)

/-- A `FilePath`, whose value has no NUL. -/
structure Path where
  path_ : StringType
  terminated : kStringTerminator ∉ path_

theorem not_mem_construct (path : StringType) : kStringTerminator ∉ construct path := by
  intro member
  have kept := List.mem_takeWhile_imp member
  simp at kept

variable {path : StringType}

theorem construct_eq (terminated : kStringTerminator ∉ path) : construct path = path :=
  List.takeWhile_eq_self_iff.mpr fun _ member => decide_eq_true fun same => terminated (same ▸ member)

def Path.new (path : StringType) : Path := ⟨construct path, not_mem_construct path⟩

def isAbsolute (path : StringType) : Bool := path[0]?.any isSeparator

/-- The separator between a path and what is appended to it. No separator goes to an empty path, behind a root, or
before nothing. -/
def separated (new_path appended : StringType) : StringType :=
  if appended.length > 0 ∧ new_path.length > 0 ∧ ¬new_path[new_path.length - 1]?.any isSeparator ∧
      letterEnd new_path ≠ new_path.length then new_path ++ [kSeparator]
  else new_path

def append (path component : StringType) : StringType :=
  let appended := component.takeWhile (· ≠ kStringTerminator)
  if path = kCurrentDirectory then construct appended
  else separated (stripTrailingSeparatorsInternal path) appended ++ appended

/-- The comparison in `AppendRelativePath`, with what is left of the child. -/
def compareComponents : (parent child : List StringType) → Option (List StringType)
  | [], child => some child
  | parent_comp :: parent, child_comp :: child =>
    if parent_comp ≠ child_comp then none else compareComponents parent child
  | _ :: _, [] => none

/-- `AppendRelativePath`; `path` may be null. -/
def appendRelativePath (parent child : StringType) (path : Option StringType) : Option (Bool × Option StringType) := do
  let parent_components ← getComponents parent
  let child_components ← getComponents child
  if parent_components = [] ∨ parent_components.length ≥ child_components.length then return (false, path)
  match compareComponents parent_components child_components with
  | none => return (false, path)
  | some rest => return (true, path.map fun path => rest.foldl append path)

def isParent (parent child : StringType) : Option Bool := do
  return (← appendRelativePath parent child none).1

/-- `FILE_PATH_LITERAL(". \n\r\t")`. -/
def dotsAndSpaces : StringType := [0x2e, 0x20, 0x0a, 0x0d, 0x09]

/-- Only dots and white space, with two dots next to each other. -/
def refersToParent (component : StringType) : Bool :=
  component.all dotsAndSpaces.contains && decide (kParentDirectory <:+: component)

def referencesParent (path : StringType) : Option Bool := do
  return (← getComponents path).any refersToParent

/-! ### Appending -/

variable {component : StringType}

theorem append_dot (terminated : kStringTerminator ∉ component) : append kCurrentDirectory component = component := by
  have whole : component.takeWhile (· ≠ kStringTerminator) = component := construct_eq terminated
  rw [append, whole]
  exact construct_eq terminated

theorem append_of_ne_dot (other : path ≠ kCurrentDirectory) (terminated : kStringTerminator ∉ component) :
    append path component = separated (stripTrailingSeparatorsInternal path) component ++ component := by
  have whole : component.takeWhile (· ≠ kStringTerminator) = component := construct_eq terminated
  rw [append, whole]
  exact if_neg other

theorem append_nil (terminated : kStringTerminator ∉ component) : append [] component = component := by
  have bare : separated [] component = [] := if_neg fun both => absurd both.2.1 (Nat.lt_irrefl 0)
  rw [append_of_ne_dot (List.cons_ne_nil _ _).symm terminated, strip_nil, bare, List.nil_append]

theorem append_row (n : Nat) (terminated : kStringTerminator ∉ component) :
    append (row (n + 1)) component = rootOf (n + 1) ++ component := by
  have other : row (n + 1) ≠ kCurrentDirectory := fun same => by cases same
  have separator : (rootOf (n + 1))[(rootOf (n + 1)).length - 1]?.any isSeparator = true := by
    match n with
    | 0 | 1 | n + 2 => rfl
  have root : separated (rootOf (n + 1)) component = rootOf (n + 1) := if_neg fun both => both.2.2.1 separator
  rw [append_of_ne_dot other terminated, strip_row, root]

variable {base : StringType}

theorem append_named {front : StringType} {behind : Nat} (named : Named path front base behind)
    (other : path ≠ kCurrentDirectory) (terminated : kStringTerminator ∉ component) (nonempty : component ≠ []) :
    append path component = front ++ base ++ kSeparator :: component := by
  have kept := named.kept
  have apart : separated (front ++ base) component = front ++ base ++ [kSeparator] :=
    if_pos ⟨List.length_pos_iff.mpr nonempty, kept.1, Bool.eq_false_iff.mp kept.2, kept.1.ne⟩
  rw [append_of_ne_dot other terminated, named.strip, apart, List.append_assoc (front ++ base), List.singleton_append]

/-- What `Append` does to the components of a path that has some. -/
structure Appends (path component joined : StringType) : Prop where
  root : splitRoot joined = splitRoot path
  relative : leading joined = 0 ↔ leading path = 0
  pieces : pieces kSeparator joined = pieces kSeparator path ++ pieces kSeparator component
  plain : ¬IsDotted joined

/-- A relative path that is not empty has a last component. -/
theorem named_of_relative (nonempty : path ≠ []) (relative : leading path = 0) :
    ∃ front base behind, Named path front base behind := by
  cases row_or_named path with
  | inl same =>
    obtain ⟨n, rfl⟩ := same
    rw [leading_row] at relative
    subst relative
    exact absurd rfl nonempty
  | inr named => exact named

theorem pieces_ne_nil {front : StringType} {behind : Nat} (named : Named path front base behind) :
    Library.pieces kSeparator path ≠ [] := by
  rw [named.pieces]
  exact List.append_ne_nil_of_right_ne_nil _ (List.cons_ne_nil _ _)

theorem head_of_leading (relative : leading path = 0) : ∀ c ∈ path.head?, c ≠ kSeparator := by
  cases path with
  | nil =>
    intro c none_
    cases none_
  | cons first rest =>
    intro c same separator
    rw [List.head?_cons, Option.mem_some_iff] at same
    have counted : (first :: rest).takeWhile isSeparator = first :: rest.takeWhile isSeparator :=
      List.takeWhile_cons_of_pos (isSeparator_iff.mpr (same.trans separator))
    rw [leading, counted] at relative
    cases relative

theorem rootOf_eq_row (n : Nat) : ∃ m, rootOf (n + 1) = row (m + 1) ∧ m ≤ 1 := by
  match n with
  | 0 | n + 2 => exact ⟨0, rfl, Nat.zero_le 1⟩
  | 1 => exact ⟨1, rfl, Nat.le_refl 1⟩

theorem not_isDotted_of_pieces {first : List StringType} {second : StringType}
    (two : Library.pieces kSeparator path = first ++ [second]) (some_ : first ≠ []) : ¬IsDotted path := by
  intro dotted
  rw [pieces_of_isDotted dotted] at two
  exact some_ (List.append_eq_singleton_iff.mp two.symm |>.resolve_right (fun both => by cases both.2) |>.1)

theorem appends_append (some_ : getComponents path ≠ some []) (terminated : kStringTerminator ∉ component)
    (nonempty : component ≠ []) (relative : leading component = 0) :
    Appends path component (append path component) := by
  obtain ⟨front', base', behind', inner⟩ := named_of_relative nonempty relative
  cases row_or_named path with
  | inl same =>
    obtain ⟨n, rfl⟩ := same
    cases n with
    | zero => exact absurd rfl some_
    | succ n =>
      obtain ⟨m, root, short⟩ := rootOf_eq_row n
      have joined : append (row (n + 1)) component = row (m + 1) ++ component := by rw [append_row n terminated, root]
      have start : leading (row (m + 1) ++ component) = m + 1 := leading_row_append (m + 1) (head_of_leading relative)
      have single : ¬IsTripled (row (m + 1) ++ component) := fun tripled => by
        have three := tripled.1
        omega
      have same : naiveRoot (m + 1) = naiveRoot (n + 1) := by
        rw [naiveRoot_succ, naiveRoot_succ, root]
        match m with
        | 0 | 1 => rfl
      have split : Library.pieces kSeparator (row (m + 1) ++ component) = Library.pieces kSeparator component := by
        rw [row, List.replicate_succ', List.append_assoc, List.singleton_append, pieces_append_cons, pieces_row,
          List.nil_append]
      have bare : ¬IsDotted (row (m + 1) ++ component) := fun dotted => by
        have zero := leading_of_isDotted dotted
        omega
      rw [joined]
      constructor
      · rw [splitRoot, if_neg single, start, same, splitRoot_row]
      · rw [start, leading_row]
        omega
      · rw [split, pieces_row, List.nil_append]
      · exact bare
  | inr named =>
    obtain ⟨front, base, behind, named⟩ := named
    have other : path ≠ kCurrentDirectory := by
      rintro rfl
      exact some_ rfl
    have joined := append_named named other terminated nonempty
    have kept : areAllSeparators (front ++ base) = false := named.other
    have start : leading path = leading (front ++ base) := by
      rw [named.split]
      exact leading_append kept _
    have startJoined : leading (append path component) = leading (front ++ base) := by
      rw [joined]
      exact leading_append kept _
    have split : Library.pieces kSeparator (append path component) =
        Library.pieces kSeparator path ++ Library.pieces kSeparator component := by
      rw [joined, pieces_append_cons, named.split, pieces_append_replicate]
    have proper := leading_lt kept
    have longer : (front ++ base).length ≤ path.length := by
      rw [named.split]
      exact (List.prefix_append _ _).length_le
    have longerJoined : (front ++ base).length ≤ (append path component).length := by
      rw [joined]
      exact (List.prefix_append _ _).length_le
    have tripled : IsTripled (append path component) ↔ IsTripled path := by
      unfold IsTripled
      omega
    have plain : ¬IsDotted (append path component) := by
      rw [inner.pieces, ← List.append_assoc] at split
      exact not_isDotted_of_pieces split (List.append_ne_nil_of_left_ne_nil (pieces_ne_nil named) _)
    have root : splitRoot (append path component) = splitRoot path := by
      simp only [splitRoot, tripled, startJoined, start]
    exact ⟨root, by rw [startJoined, start], split, plain⟩

/-! ### Components of a relative path -/

/-- The components that are not dots. -/
def withoutDots (components : List StringType) : List StringType := components.filter (· ≠ kCurrentDirectory)

theorem withoutDots_append (first second : List StringType) :
    withoutDots (first ++ second) = withoutDots first ++ withoutDots second :=
  List.filter_append ..

theorem withoutDots_withoutDot (components : List StringType) :
    withoutDots (withoutDot components) = withoutDots components := by
  cases components with
  | nil => rfl
  | cons piece rest =>
    rw [withoutDot]
    split
    next dot =>
      subst dot
      rfl
    next => rfl

theorem withoutDots_splitNames (path : StringType) :
    withoutDots (splitNames path) = withoutDots (pieces kSeparator path) := by
  rw [splitNames]
  split
  · exact withoutDots_withoutDot _
  · rfl

variable {name : StringType}

theorem mem_pieces_of_mem_splitNames (member : name ∈ splitNames path) : name ∈ pieces kSeparator path := by
  rw [splitNames] at member
  split at member
  · cases split : pieces kSeparator path with
    | nil =>
      rw [split] at member
      cases member
    | cons piece rest =>
      rw [split, withoutDot] at member
      split at member
      · exact List.mem_cons_of_mem piece member
      · exact member
  · exact member

/-- A component as it stands in a path. -/
structure IsName (name : StringType) : Prop where
  nonempty : name ≠ []
  plain : kSeparator ∉ name
  terminated : kStringTerminator ∉ name

theorem isName_of_mem (terminated : kStringTerminator ∉ path) (member : name ∈ splitNames path) : IsName name := by
  obtain ⟨plain, nonempty, inside⟩ := plain_of_mem_pieces (mem_pieces_of_mem_splitNames member)
  exact ⟨nonempty, plain, fun terminator => terminated (inside _ terminator)⟩

/-- A path to which names were appended, one after another: nothing, or a relative path that ends in a name. -/
structure Joined (path : StringType) (names : List StringType) : Prop where
  relative : leading path = 0
  terminated : kStringTerminator ∉ path
  same : withoutDots (pieces kSeparator path) = withoutDots names
  ends : path = [] ∧ names = [] ∨ ∃ front base, Named path front base 0

theorem joined_name (isName : IsName name) (names : List StringType) (dots : withoutDots names = []) :
    Joined name (names ++ [name]) := by
  have named : Named name [] name 0 := ⟨(List.append_nil _).symm, .inl rfl, isName.nonempty, isName.plain⟩
  refine ⟨named.leading_alone, isName.terminated, ?_, .inr ⟨[], name, named⟩⟩
  rw [withoutDots_append, dots, named.pieces]
  rfl

variable {names : List StringType}

theorem Joined.append (joined : Joined path names) (isName : IsName name) :
    Joined (append path name) (names ++ [name]) := by
  by_cases here : path = kCurrentDirectory
  · subst here
    have dots : withoutDots names = [] := joined.same.symm
    rw [append_dot isName.terminated]
    exact joined_name isName names dots
  · rcases joined.ends with ⟨rfl, rfl⟩ | ⟨front, base, named⟩
    · rw [append_nil isName.terminated]
      exact joined_name isName [] rfl
    · have whole : path = front ++ base := named.split.trans (List.append_nil _)
      have longer : FilePath.append path name = path ++ kSeparator :: name := by
        rw [append_named named here isName.terminated isName.nonempty, ← whole]
      have last : Named (path ++ kSeparator :: name) (path ++ [kSeparator]) name 0 :=
        ⟨by rw [row_zero, List.append_nil, List.append_assoc, List.singleton_append], .inr ⟨path, rfl⟩, isName.nonempty,
          isName.plain⟩
      rw [longer]
      refine ⟨?_, ?_, ?_, .inr ⟨_, _, last⟩⟩
      · have kept : areAllSeparators path = false := whole ▸ named.other
        rw [leading_append kept, joined.relative]
      · intro terminator
        cases List.mem_append.mp terminator with
        | inl inside => exact joined.terminated inside
        | inr later =>
          cases List.mem_cons.mp later with
          | inl separator => cases separator
          | inr inside => exact isName.terminated inside
      · rw [last.pieces, pieces_append_cons, pieces_nil, List.append_nil, withoutDots_append, withoutDots_append,
          joined.same]

theorem joined_foldl {more : List StringType} (joined : Joined path names) (areNames : ∀ name ∈ more, IsName name) :
    Joined (more.foldl FilePath.append path) (names ++ more) := by
  induction more generalizing path names with
  | nil =>
    rw [List.append_nil]
    exact joined
  | cons name more ih =>
    have next := ih (joined.append (areNames name List.mem_cons_self)) fun name member =>
      areNames name (List.mem_cons_of_mem _ member)
    rwa [List.append_assoc] at next

/-! ### Parents -/

theorem compareComponents_append (parent rest : List StringType) :
    compareComponents parent (parent ++ rest) = some rest := by
  induction parent with
  | nil => rfl
  | cons component parent ih =>
    have same : ¬component ≠ component := not_not.mpr rfl
    rw [List.cons_append, compareComponents, if_neg same]
    exact ih

theorem eq_of_compareComponents {parent child rest : List StringType}
    (found : compareComponents parent child = some rest) : child = parent ++ rest := by
  induction parent generalizing child with
  | nil =>
    cases found
    rfl
  | cons component parent ih =>
    cases child with
    | nil => cases found
    | cons first child =>
      rw [compareComponents] at found
      by_cases same : component = first
      · rw [if_neg (not_not.mpr same)] at found
        rw [ih found, same, List.cons_append]
      · rw [if_pos same] at found
        cases found

/-- The first list goes on in the second. -/
def GoesOn (first second : List StringType) : Prop := first ≠ [] ∧ first <+: second ∧ first ≠ second

section Relating

variable {parent child : StringType} {parents children rest : List StringType}

theorem appendRelativePath_of_goesOn (ofParent : getComponents parent = some parents)
    (ofChild : getComponents child = some (parents ++ rest)) (some_ : parents ≠ []) (more : rest ≠ [])
    (path : Option StringType) :
    appendRelativePath parent child path = some (true, path.map fun path => rest.foldl append path) := by
  have positive : 0 < rest.length := List.length_pos_iff.mpr more
  have longer : ¬(parents = [] ∨ parents.length ≥ (parents ++ rest).length) := by
    rintro (none_ | short)
    · exact some_ none_
    · rw [List.length_append] at short
      omega
  rw [appendRelativePath, ofParent, ofChild]
  simp only [Option.bind_eq_bind, Option.bind_some, if_neg longer, compareComponents_append, Option.pure_def]

theorem appendRelativePath_of_not_goesOn (ofParent : getComponents parent = some parents)
    (ofChild : getComponents child = some children) (differ : ¬GoesOn parents children) (path : Option StringType) :
    appendRelativePath parent child path = some (false, path) := by
  rw [appendRelativePath, ofParent, ofChild]
  simp only [Option.bind_eq_bind, Option.bind_some, Option.pure_def]
  split
  next => rfl
  next long =>
    rw [not_or] at long
    have none_ : compareComponents parents children = none := by
      refine Option.eq_none_iff_forall_not_mem.mpr fun rest found => differ ⟨long.1, ?_, ?_⟩
      · exact ⟨rest, (eq_of_compareComponents found).symm⟩
      · rintro rfl
        exact long.2 (Nat.le_refl _)
    rw [none_]

theorem goesOn_iff : GoesOn parents children ↔ parents ≠ [] ∧ ∃ rest, rest ≠ [] ∧ children = parents ++ rest := by
  constructor
  · rintro ⟨some_, ⟨rest, rfl⟩, different⟩
    refine ⟨some_, rest, ?_, rfl⟩
    rintro rfl
    exact different (List.append_nil _).symm
  · rintro ⟨some_, rest, more, rfl⟩
    exact ⟨some_, List.prefix_append _ _, fun same => more (List.append_right_eq_self.mp same.symm)⟩

end Relating

/-- `AppendRelativePath` tells whether the components of the parent go on in those of the child, and what it appends
leads from the parent to the child. -/
def Relates (parent child : StringType) : Prop :=
  ∃ parents children result r, getComponents parent = some parents ∧ getComponents child = some children ∧
    appendRelativePath parent child (some []) = some (result, some r) ∧
    (result = true ↔ GoesOn parents children) ∧
    (result = true → ∃ joined, getComponents (append parent r) = some joined ∧
      withoutDots joined = withoutDots children)

/-- A path with components is a parent of what is appended to it, unless that is empty or absolute, or refers to a
parent. -/
def Contains (base path : StringType) : Prop :=
  getComponents base ≠ some [] → path ≠ [] → isAbsolute path = false → referencesParent path = some false →
    (∃ names, getComponents path = some names ∧ kParentDirectory ∉ names) ∧
      isParent base (append base path) = some true

theorem names_of_append {root first rest : List StringType} (single : root.length ≤ 1)
    (whole : root ++ names = first ++ rest) (some_ : first ≠ []) : ∀ name ∈ rest, name ∈ names := by
  intro name member
  cases first with
  | nil => exact absurd rfl some_
  | cons component first =>
    match root with
    | [] =>
      rw [List.nil_append] at whole
      exact whole ▸ List.mem_append_right _ member
    | [only] =>
      rw [List.cons_append, List.cons_append, List.nil_append, List.cons.injEq] at whole
      exact whole.2 ▸ List.mem_append_right first member

theorem length_splitRoot_le (path : StringType) : (splitRoot path).length ≤ 1 := by
  rw [splitRoot]
  split
  · exact Nat.le_refl 1
  · unfold naiveRoot
    split
    next => exact Nat.zero_le 1
    next => exact Nat.le_refl 1
    next => exact Nat.le_refl 1

theorem relates (parent child : Path) : Relates parent.path_ child.path_ := by
  have ofParent := getComponents_eq parent.path_
  have ofChild := getComponents_eq child.path_
  generalize some_ : splitRoot parent.path_ ++ splitNames parent.path_ = parents at ofParent
  by_cases goesOn : GoesOn parents (splitRoot child.path_ ++ splitNames child.path_)
  · obtain ⟨nonempty, rest, more, whole⟩ := goesOn_iff.mp goesOn
    have areNames (name : StringType) (member : name ∈ rest) : IsName name :=
      isName_of_mem child.terminated (names_of_append (length_splitRoot_le _) whole nonempty name member)
    have empty : Joined [] [] := ⟨rfl, List.not_mem_nil, rfl, .inl ⟨rfl, rfl⟩⟩
    have joined := joined_foldl empty areNames
    rw [List.nil_append] at joined
    have result := appendRelativePath_of_goesOn ofParent (whole ▸ ofChild) nonempty more (some [])
    refine ⟨parents, _, true, rest.foldl append [], ofParent, ofChild, result, iff_of_true rfl goesOn, fun _ => ?_⟩
    have named : rest.foldl append [] ≠ [] := by
      rcases joined.ends with ⟨-, none_⟩ | ⟨front, base, named⟩
      · exact absurd none_ more
      · intro none_
        have nothing := pieces_ne_nil named
        rw [none_] at nothing
        exact nothing rfl
    have appends := appends_append (by rw [ofParent]; exact fun same => nonempty (Option.some.inj same))
      joined.terminated named joined.relative
    refine ⟨_, getComponents_eq _, ?_⟩
    rw [whole, withoutDots_append, withoutDots_splitNames, appends.root, appends.pieces, withoutDots_append,
      joined.same, ← withoutDots_splitNames, ← List.append_assoc, ← withoutDots_append, some_, withoutDots_append]
  · have result := appendRelativePath_of_not_goesOn ofParent ofChild goesOn (some [])
    exact ⟨parents, _, false, [], ofParent, ofChild, result, iff_of_false Bool.false_ne_true goesOn,
      fun found => absurd found Bool.false_ne_true⟩

theorem leading_of_isAbsolute (relative : isAbsolute path = false) : leading path = 0 := by
  cases path with
  | nil => rfl
  | cons first rest =>
    have other : ¬isSeparator first = true := Bool.eq_false_iff.mp relative
    rw [leading, List.takeWhile_cons_of_neg other]
    rfl

theorem names_of_referencesParent (refers : referencesParent path = some false) :
    ∃ names, getComponents path = some names ∧ kParentDirectory ∉ names := by
  refine ⟨_, getComponents_eq path, fun member => ?_⟩
  rw [referencesParent, getComponents_eq] at refers
  have found : (splitRoot path ++ splitNames path).any refersToParent = true :=
    List.any_eq_true.mpr ⟨kParentDirectory, member, by decide⟩
  simp only [Option.bind_eq_bind, Option.bind_some, Option.pure_def, found, Option.some.injEq, Bool.true_eq_false]
    at refers

theorem isParent_iff {parent child : StringType} {parents children : List StringType}
    (ofParent : getComponents parent = some parents) (ofChild : getComponents child = some children) :
    isParent parent child = some true ↔ GoesOn parents children := by
  by_cases goesOn : GoesOn parents children
  · obtain ⟨some_, rest, more, rfl⟩ := goesOn_iff.mp goesOn
    rw [isParent, appendRelativePath_of_goesOn ofParent ofChild some_ more]
    exact iff_of_true rfl goesOn
  · rw [isParent, appendRelativePath_of_not_goesOn ofParent ofChild goesOn]
    refine iff_of_false ?_ goesOn
    intro found
    cases found

/-- The components of a base that is not a dot before separators go on in those of what is appended. -/
theorem splitNames_of_appends {joined : StringType} (appends : Appends path component joined)
    (some_ : getComponents path ≠ some []) (bare : ¬IsDotted path) :
    splitNames joined = splitNames path ++ pieces kSeparator component := by
  rw [splitNames, splitNames, appends.pieces]
  by_cases relative : leading path = 0
  · have nonempty : path ≠ [] := by
      rintro rfl
      exact some_ rfl
    obtain ⟨front, base, behind, named⟩ := named_of_relative nonempty relative
    rw [if_pos ⟨appends.relative.mpr relative, appends.plain⟩, if_pos ⟨relative, bare⟩,
      withoutDot_append (pieces_ne_nil named)]
  · rw [if_neg fun both => relative (appends.relative.mp both.1), if_neg fun both => relative both.1]

theorem split_of_appends_dotted {joined : StringType} (appends : Appends path component joined)
    (dotted : IsDotted path) :
    splitRoot path ++ splitNames path = [kCurrentDirectory] ∧
      splitRoot joined ++ splitNames joined = pieces kSeparator component := by
  have start := leading_of_isDotted dotted
  have single : ¬IsTripled path := fun tripled => by
    have three := tripled.1
    omega
  have root : splitRoot path = [] := by
    rw [splitRoot, if_neg single, start]
    rfl
  constructor
  · rw [root, splitNames, if_neg fun both => both.2 dotted, pieces_of_isDotted dotted]
    rfl
  · rw [appends.root, root, splitNames, if_pos ⟨appends.relative.mpr start, appends.plain⟩, appends.pieces,
      pieces_of_isDotted dotted]
    rfl

theorem isParent_append (some_ : getComponents base ≠ some []) (terminated : kStringTerminator ∉ path)
    (nonempty : path ≠ []) (relative : leading path = 0) :
    isParent base (append base path) = some true ↔
      (IsDotted base → ∃ piece rest, pieces kSeparator path = kCurrentDirectory :: piece :: rest) := by
  have appends := appends_append some_ terminated nonempty relative
  rw [isParent_iff (getComponents_eq base) (getComponents_eq _)]
  by_cases dotted : IsDotted base
  · obtain ⟨ofBase, ofJoined⟩ := split_of_appends_dotted appends dotted
    rw [ofBase, ofJoined, goesOn_iff]
    constructor
    · rintro ⟨-, rest, more, whole⟩ -
      obtain ⟨piece, rest, rfl⟩ := List.exists_cons_of_ne_nil more
      exact ⟨piece, rest, whole⟩
    · intro starts
      obtain ⟨piece, rest, whole⟩ := starts dotted
      exact ⟨List.cons_ne_nil _ _, piece :: rest, List.cons_ne_nil _ _, whole⟩
  · obtain ⟨front, last, behind, named⟩ := named_of_relative nonempty relative
    refine iff_of_true (goesOn_iff.mpr ⟨?_, _, pieces_ne_nil named, ?_⟩) fun impossible => absurd impossible dotted
    · rwa [getComponents_eq, ne_eq, Option.some.injEq] at some_
    · rw [appends.root, splitNames_of_appends appends some_ dotted, List.append_assoc]

/-- Relative paths lead from parents to children; what is appended stays inside, but for a base that is a dot before
separators and a path that does not go on from a dot of its own. -/
theorem contains_iff (parent child base path : Path) :
    Relates parent.path_ child.path_ ∧ Contains base.path_ path.path_ ↔
      (IsDotted base.path_ → path.path_ = [] ∨ isAbsolute path.path_ = true ∨ referencesParent path.path_ = some true ∨
        ∃ piece rest, pieces kSeparator path.path_ = kCurrentDirectory :: piece :: rest) := by
  have refers : referencesParent path.path_ = some true ∨ referencesParent path.path_ = some false := by
    rw [referencesParent, getComponents_eq]
    cases outcome : (splitRoot path.path_ ++ splitNames path.path_).any refersToParent with
    | false => exact .inr (congrArg some outcome)
    | true => exact .inl (congrArg some outcome)
  constructor
  · rintro ⟨-, contains⟩ dotted
    by_contra outside
    rw [not_or, not_or, not_or, Bool.not_eq_true] at outside
    obtain ⟨nonempty, relative, other, lone⟩ := outside
    have some_ : getComponents base.path_ ≠ some [] := by
      obtain ⟨n, same⟩ := (isDotted_iff _).mp dotted
      have named : Named base.path_ [] kCurrentDirectory (n + 1) := ⟨same, .inl rfl, by decide, by decide⟩
      have longer : base.path_ ≠ kCurrentDirectory := fun dot => by
        rw [dot] at dotted
        exact absurd dotted (by decide)
      rw [getComponents_eq, named.split_alone, if_neg longer]
      exact fun none_ => by cases none_
    have parent := (contains some_ nonempty relative (refers.resolve_left other)).2
    exact lone ((isParent_append some_ path.terminated nonempty (leading_of_isAbsolute relative)).mp parent dotted)
  · intro starts
    refine ⟨relates parent child, fun some_ nonempty relative plain => ⟨names_of_referencesParent plain, ?_⟩⟩
    refine (isParent_append some_ path.terminated nonempty (leading_of_isAbsolute relative)).mpr fun dotted => ?_
    rcases starts dotted with none_ | absolute | refersToIt | goesOn
    · exact absurd none_ nonempty
    · rw [relative] at absolute
      cases absolute
    · rw [plain] at refersToIt
      cases refersToIt
    · exact goesOn

/-- `./` has the component `.`, but `./b` has only `b`. -/
theorem not_contains_dotted :
    ¬∀ parent child base path : Path, Relates parent.path_ child.path_ ∧ Contains base.path_ path.path_ := by
  intro always
  have contains := (always (.new []) (.new []) (.new [0x2e, 0x2f]) (.new [0x62])).2
  have parent := (contains (by decide) (by decide) (by decide) (by decide)).2
  have found : isParent (Path.new [0x2e, 0x2f]).path_ (append (Path.new [0x2e, 0x2f]).path_ (Path.new [0x62]).path_) =
      some false := by decide
  rw [found] at parent
  cases parent

end Libchrome.Base.FilePath
