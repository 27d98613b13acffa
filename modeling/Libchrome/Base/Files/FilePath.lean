import Libchrome.Library.Bytes
import Libchrome.Library.Components
import Libchrome.Library.Searching
import Mathlib.Data.List.TakeWhile

/-!
# `FilePath` on POSIX

`DirName`, `BaseName` and `GetComponents` (`file_path.cc`) on the value of a path.
-/

namespace Libchrome.Base

open Library Bytes

namespace FilePath

abbrev StringType := List Byte

abbrev kSeparator : Byte := 0x2f

def kSeparators : StringType := [kSeparator]

def kCurrentDirectory : StringType := [0x2e]

def kParentDirectory : StringType := [0x2e, 0x2e]

def kExtensionSeparator : Byte := 0x2e

def kStringTerminator : Byte := 0

def isSeparator (character : Byte) : Bool := kSeparators.contains character

/-- No path has a drive letter here. -/
def findDriveLetter (_path : StringType) : Option Nat := none

/-- `letter + 1`, where `npos + 1` is zero. -/
def letterEnd (path : StringType) : Nat :=
  match findDriveLetter path with
  | some letter => letter + 1
  | none => 0

def areAllSeparators (input : StringType) : Bool := input.all isSeparator

/-- The loop of `StripTrailingSeparatorsInternal`. -/
def stripFrom (start : Nat) : (pos : Nat) → (last_stripped : Option Nat) → StringType → StringType
  | 0, _, path => path
  | pos + 1, last_stripped, path =>
    if pos + 1 > start ∧ path[pos]?.any isSeparator then
      if pos + 1 ≠ start + 1 ∨ last_stripped = some (start + 2) ∨ ¬path[start - 1]?.any isSeparator then
        stripFrom start pos (some (pos + 1)) (path.take pos)
      else stripFrom start pos last_stripped path
    else path

def stripTrailingSeparatorsInternal (path : StringType) : StringType :=
  stripFrom (letterEnd path + 1) path.length none path

def findLastOf (text s : StringType) : Option Nat :=
  Searching.highest (fun i => text[i]?.any s.contains) text.length

/-- `DirName`, before trailing separators are stripped again. -/
def resizeToDirectory (path : StringType) : StringType :=
  let letter_end := letterEnd path
  match findLastOf path kSeparators with
  | none => path.take letter_end
  | some last_separator =>
    if last_separator = letter_end then path.take (letter_end + 1)
    else if last_separator = letter_end + 1 ∧ path[letter_end]?.any isSeparator then path.take (letter_end + 2)
    else if last_separator ≠ 0 then path.take last_separator
    else path

def dirName (path : StringType) : StringType :=
  let new_path := stripTrailingSeparatorsInternal (resizeToDirectory (stripTrailingSeparatorsInternal path))
  if new_path.length = 0 then kCurrentDirectory else new_path

def baseName (path : StringType) : StringType :=
  let stripped := stripTrailingSeparatorsInternal path
  let new_path := stripped.drop (letterEnd stripped)
  match findLastOf new_path kSeparators with
  | some last_separator => if last_separator < new_path.length - 1 then new_path.drop (last_separator + 1) else new_path
  | none => new_path

/-- The loop of `GetComponents` and what comes after it; `none` when `turns` are not enough. -/
def componentsFrom : (turns : Nat) → (current : StringType) → (ret_val : List StringType) → Option (List StringType)
  | 0, _, _ => none
  | turns + 1, current, ret_val =>
    let base := baseName current
    let dir := dirName current
    if current ≠ dir then componentsFrom turns dir (if areAllSeparators base then ret_val else ret_val ++ [base])
    else
      let ret_val := if base ≠ [] ∧ base ≠ kCurrentDirectory then ret_val ++ [base] else ret_val
      let ret_val := match findDriveLetter dir with
        | some letter => ret_val ++ [dir.take (letter + 1)]
        | none => ret_val
      some ret_val.reverse

/-- `GetComponents`: no turn but one leaves the length of the path as it is. -/
def getComponents (path : StringType) : Option (List StringType) :=
  if path = [] then some [] else componentsFrom (path.length + 1) path []

/-! ### Rows of separators, and named paths -/

/-- `n` separators. -/
abbrev row (n : Nat) : StringType := List.replicate n kSeparator

@[simp] theorem isSeparator_iff {character : Byte} : isSeparator character = true ↔ character = kSeparator := by
  rw [isSeparator, kSeparators, List.contains_iff_mem, List.mem_singleton]

@[simp] theorem letterEnd_eq (path : StringType) : letterEnd path = 0 :=
  rfl

theorem row_zero : row 0 = [] :=
  rfl

theorem getElem?_row {i n : Nat} (inside : i < n) : (row n)[i]? = some kSeparator :=
  List.getElem?_replicate_of_lt inside

theorem separators_eq_row {path : StringType} (all : ∀ c ∈ path, c = kSeparator) : path = row path.length :=
  List.eq_replicate_of_mem all

/-- A path with a last component: what leads to it, the component, and the separators behind it. -/
structure Named (path front base : StringType) (behind : Nat) : Prop where
  split : path = front ++ base ++ row behind
  leads : front = [] ∨ ∃ rest, front = rest ++ [kSeparator]
  nonempty : base ≠ []
  plain : kSeparator ∉ base

theorem row_or_named (path : StringType) :
    (∃ n, path = row n) ∨ ∃ front base behind, Named path front base behind := by
  induction path using List.reverseRecOn with
  | nil => exact .inl ⟨0, rfl⟩
  | append_singleton path last ih =>
    by_cases separator : last = kSeparator
    · subst separator
      cases ih with
      | inl same =>
        obtain ⟨n, rfl⟩ := same
        exact .inl ⟨n + 1, (List.replicate_succ').symm⟩
      | inr named =>
        obtain ⟨front, base, behind, named⟩ := named
        refine .inr ⟨front, base, behind + 1, ?_, named.leads, named.nonempty, named.plain⟩
        rw [named.split, List.append_assoc (front ++ base), ← List.replicate_succ']
    · right
      cases ih with
      | inl same =>
        obtain ⟨n, rfl⟩ := same
        refine ⟨row n, [last], 0, ?_, ?_, List.cons_ne_nil _ _, ?_⟩
        · exact (List.append_nil _).symm
        · cases n with
          | zero => exact .inl rfl
          | succ n => exact .inr ⟨row n, List.replicate_succ'⟩
        · exact fun member => separator (List.mem_singleton.mp member).symm
      | inr named =>
        obtain ⟨front, base, behind, named⟩ := named
        cases behind with
        | zero =>
          refine ⟨front, base ++ [last], 0, ?_, named.leads, ?_, ?_⟩
          · rw [named.split, row_zero, List.append_nil, List.append_nil, List.append_assoc]
          · exact List.append_ne_nil_of_right_ne_nil _ (List.cons_ne_nil _ _)
          · intro member
            cases List.mem_append.mp member with
            | inl inside => exact named.plain inside
            | inr atEnd => exact separator (List.mem_singleton.mp atEnd).symm
        | succ behind =>
          refine ⟨path, [last], 0, (List.append_nil _).symm, .inr ⟨front ++ base ++ row behind, ?_⟩,
            List.cons_ne_nil _ _, ?_⟩
          · rw [named.split, row, List.replicate_succ', ← List.append_assoc]
          · exact fun member => separator (List.mem_singleton.mp member).symm

/-! ### Trailing separators -/

theorem stripFrom_of_plain {path : StringType} {pos : Nat} (last : Option Nat)
    (plain : path[pos - 1]?.any isSeparator = false) : stripFrom 1 pos last path = path := by
  cases pos with
  | zero => rfl
  | succ pos =>
    have stays : ¬(pos + 1 > 1 ∧ path[pos]?.any isSeparator = true) := by
      rintro ⟨-, separator⟩
      rw [Nat.add_sub_cancel] at plain
      rw [plain] at separator
      cases separator
    rw [stripFrom, if_neg stays]

variable {text : StringType}

theorem stripFrom_behind (nonempty : 0 < text.length) (kept : text[text.length - 1]?.any isSeparator = false)
    (behind : Nat) (last : Option Nat) : stripFrom 1 (text.length + behind) last (text ++ row behind) = text := by
  induction behind generalizing last with
  | zero =>
    rw [row_zero, List.append_nil]
    exact stripFrom_of_plain last kept
  | succ behind ih =>
    have length : (text ++ row behind).length = text.length + behind := by
      rw [List.length_append, List.length_replicate]
    have split : text ++ row (behind + 1) = text ++ row behind ++ [kSeparator] := by
      rw [List.append_assoc, ← List.replicate_succ']
    have separator : (text ++ row (behind + 1))[text.length + behind]? = some kSeparator := by
      rw [split, ← length, List.getElem?_concat_length]
    have stripped : (text ++ row (behind + 1)).take (text.length + behind) = text ++ row behind := by
      rw [split, ← length, List.take_left]
    have strips : text.length + behind + 1 ≠ 1 + 1 ∨ last = some (1 + 2) ∨
        ¬(text ++ row (behind + 1))[1 - 1]?.any isSeparator = true := by
      by_cases two : text.length + behind + 1 = 1 + 1
      · right
        right
        have one : text.length - 1 = 1 - 1 := by omega
        rw [← one, List.getElem?_append_left (by omega), kept]
        exact Bool.false_ne_true
      · exact .inl two
    rw [← Nat.add_assoc, stripFrom, if_pos ⟨by omega, by rw [separator]; exact isSeparator_iff.mpr rfl⟩,
      if_pos strips, stripped]
    exact ih _

/-- What is left of a row of separators. -/
def rootOf : Nat → StringType
  | 0 => []
  | 2 => row 2
  | _ => row 1

theorem stripFrom_long (n : Nat) (last : Option Nat) : stripFrom 1 (n + 3) last (row (n + 3)) = row 1 := by
  induction n generalizing last with
  | zero => rfl
  | succ n ih =>
    have separator : (row (n + 1 + 3))[n + 3]?.any isSeparator = true := by
      rw [getElem?_row (by omega)]
      rfl
    rw [show n + 1 + 3 = n + 3 + 1 by omega, stripFrom, if_pos ⟨by omega, separator⟩, if_pos (.inl (by omega)),
      List.take_replicate, Nat.min_eq_left (by omega)]
    exact ih _

theorem strip_row (n : Nat) : stripTrailingSeparatorsInternal (row n) = rootOf n := by
  rw [stripTrailingSeparatorsInternal, List.length_replicate]
  match n with
  | 0 | 1 | 2 => rfl
  | n + 3 => exact stripFrom_long n none

theorem Named.kept {path front base : StringType} {behind : Nat} (named : Named path front base behind) :
    0 < (front ++ base).length ∧ (front ++ base)[(front ++ base).length - 1]?.any isSeparator = false := by
  obtain ⟨text, final, same⟩ := (List.eq_nil_or_concat' base).resolve_left named.nonempty
  have plain : final ≠ kSeparator := by
    rintro rfl
    exact named.plain (same ▸ List.mem_append_right text List.mem_cons_self)
  rw [same, ← List.append_assoc]
  constructor
  · rw [List.length_append]
    exact Nat.succ_pos _
  · rw [List.length_append, List.length_singleton, Nat.add_sub_cancel, List.getElem?_concat_length, Option.any_some]
    exact Bool.eq_false_iff.mpr fun separator => plain (isSeparator_iff.mp separator)

theorem Named.strip {path front base : StringType} {behind : Nat} (named : Named path front base behind) :
    stripTrailingSeparatorsInternal path = front ++ base := by
  rw [stripTrailingSeparatorsInternal, named.split, List.length_append, List.length_replicate]
  exact stripFrom_behind named.kept.1 named.kept.2 behind none

/-! ### Directories and bases -/

theorem contains_kSeparators (character : Byte) : kSeparators.contains character = true ↔ character = kSeparator :=
  isSeparator_iff

theorem findLastOf_plain (plain : kSeparator ∉ text) : findLastOf text kSeparators = none := by
  refine Searching.highest_eq_none_iff.mpr fun i inside => ?_
  rw [List.getElem?_eq_getElem inside, Option.any_some]
  exact Bool.eq_false_iff.mpr fun found => plain ((contains_kSeparators _).mp found ▸ List.getElem_mem inside)

theorem findLastOf_behind (rest : StringType) (plain : kSeparator ∉ text) :
    findLastOf (rest ++ [kSeparator] ++ text) kSeparators = some rest.length := by
  have length : (rest ++ [kSeparator]).length = rest.length + 1 := List.length_append
  refine Searching.highest_eq_some_iff.mpr ⟨?_, ?_, fun i after inside => ?_⟩
  · rw [List.length_append, length]
    omega
  · rw [List.getElem?_append_left (by omega), List.getElem?_concat_length]
    rfl
  · rw [List.getElem?_append_right (by omega)]
    rw [List.length_append] at inside
    rw [List.getElem?_eq_getElem (by omega), Option.any_some]
    exact Bool.eq_false_iff.mpr fun found => plain ((contains_kSeparators _).mp found ▸ List.getElem_mem _)

theorem baseName_row (n : Nat) : baseName (row n) = rootOf n := by
  rw [baseName, strip_row]
  match n with
  | 0 | 1 | 2 => rfl
  | n + 3 => rfl

theorem dirName_row (n : Nat) : dirName (row n) = if n = 0 then kCurrentDirectory else rootOf n := by
  rw [dirName, strip_row]
  match n with
  | 0 | 1 | 2 => rfl
  | n + 3 => rfl

section Naming

variable {path front base : StringType} {behind : Nat}

theorem Named.baseName (named : Named path front base behind) : baseName path = base := by
  have positive : 0 < base.length := List.length_pos_iff.mpr named.nonempty
  rw [FilePath.baseName, named.strip, letterEnd_eq, List.drop_zero]
  cases named.leads with
  | inl empty => rw [empty, List.nil_append, findLastOf_plain named.plain]
  | inr leads =>
    obtain ⟨rest, rfl⟩ := leads
    have length : (rest ++ [kSeparator]).length = rest.length + 1 := List.length_append
    have short : rest.length < (rest ++ [kSeparator] ++ base).length - 1 := by
      rw [List.length_append, length]
      omega
    rw [findLastOf_behind rest named.plain]
    simp only [if_pos short, ← length, List.drop_left]

theorem Named.front_cases (named : Named path front base behind) :
    front = [] ∨ (∃ n, front = row (n + 1)) ∨ ∃ lead parent n, Named front lead parent (n + 1) := by
  cases named.leads with
  | inl empty => exact .inl empty
  | inr leads =>
    obtain ⟨rest, ends⟩ := leads
    right
    cases row_or_named front with
    | inl same =>
      obtain ⟨n, same⟩ := same
      cases n with
      | zero => exact absurd (ends.symm.trans same) (List.append_ne_nil_of_right_ne_nil _ (List.cons_ne_nil _ _))
      | succ n => exact .inl ⟨n, same⟩
    | inr inner =>
      obtain ⟨lead, parent, n, inner⟩ := inner
      cases n with
      | zero =>
        have kept := inner.kept.2
        have split := inner.split
        rw [row_zero, List.append_nil] at split
        rw [← split, ends, List.length_append, List.length_singleton, Nat.add_sub_cancel,
          List.getElem?_concat_length] at kept
        cases kept
      | succ n => exact .inr ⟨lead, parent, n, inner⟩

theorem strip_nil : stripTrailingSeparatorsInternal [] = [] :=
  rfl

theorem Named.dirName_alone (named : Named path [] base behind) : dirName path = kCurrentDirectory := by
  rw [dirName, named.strip, List.nil_append, resizeToDirectory, findLastOf_plain named.plain]
  rfl

/-- The root in front of a component: after three separators, one too many is left. -/
def rootBefore : Nat → StringType
  | 3 => row 2
  | n => rootOf n

theorem resizeToDirectory_behind {rest : StringType} (plain : kSeparator ∉ base) (some_ : rest.length ≠ 0)
    (inside : ¬(rest.length = 1 ∧ rest[0]?.any isSeparator = true)) :
    resizeToDirectory (rest ++ [kSeparator] ++ base) = rest := by
  have first : (rest ++ [kSeparator] ++ base)[0]? = rest[0]? := by
    rw [List.append_assoc, List.getElem?_append_left (Nat.pos_of_ne_zero some_)]
  have cut : (rest ++ [kSeparator] ++ base).take rest.length = rest := by rw [List.append_assoc, List.take_left]
  rw [← first] at inside
  rw [resizeToDirectory, findLastOf_behind rest plain]
  exact (if_neg some_).trans ((if_neg inside).trans ((if_pos some_).trans cut))

theorem Named.dirName_rooted {n : Nat} (named : Named path (row (n + 1)) base behind) :
    dirName path = rootBefore (n + 1) := by
  have split : row (n + 1) = row n ++ [kSeparator] := List.replicate_succ'
  have found := findLastOf_behind (row n) named.plain
  rw [dirName, named.strip]
  match n with
  | 0 | 1 =>
    rw [resizeToDirectory, split, found]
    rfl
  | n + 2 =>
    have long : (row (n + 2)).length = n + 2 := List.length_replicate
    rw [split, resizeToDirectory_behind named.plain (by omega) (by omega), strip_row]
    match n with
    | 0 | n + 1 => rfl

theorem Named.dirName_named {lead parent : StringType} {n : Nat} (named : Named path front base behind)
    (inner : Named front lead parent (n + 1)) : dirName path = lead ++ parent := by
  have split : front = lead ++ parent ++ row n ++ [kSeparator] := by
    rw [inner.split, List.append_assoc (lead ++ parent), ← List.replicate_succ']
  have positive := inner.kept.1
  have length : (lead ++ parent ++ row n).length = (lead ++ parent).length + n := by
    rw [List.length_append, List.length_replicate]
  have inside : ¬((lead ++ parent ++ row n).length = 1 ∧ (lead ++ parent ++ row n)[0]?.any isSeparator = true) := by
    rintro ⟨one, separator⟩
    have kept := inner.kept.2
    rw [show (lead ++ parent).length - 1 = 0 by omega] at kept
    rw [List.getElem?_append_left positive, kept] at separator
    cases separator
  have stripped : stripTrailingSeparatorsInternal (lead ++ parent ++ row n) = lead ++ parent :=
    Named.strip ⟨rfl, inner.leads, inner.nonempty, inner.plain⟩
  have nonempty : ¬(lead ++ parent).length = 0 := by omega
  rw [dirName, named.strip, split, resizeToDirectory_behind named.plain (by omega) inside, stripped]
  exact if_neg nonempty

end Naming

/-! ### The naive split -/

/-- The number of separators that a path starts with. -/
def leading (path : StringType) : Nat := (path.takeWhile isSeparator).length

/-- The root that a number of leading separators stands for. -/
def naiveRoot : Nat → List StringType
  | 0 => []
  | 2 => [row 2]
  | _ => [row 1]

/-- Pieces without a dot that stands first. -/
def withoutDot : List StringType → List StringType
  | [] => []
  | piece :: rest => if piece = kCurrentDirectory then rest else piece :: rest

/-- The root, and the pieces between separators that are not empty. -/
def naiveSplit (path : StringType) : List StringType :=
  if leading path = 0 then withoutDot (pieces kSeparator path)
  else naiveRoot (leading path) ++ pieces kSeparator path

/-- A dot and separators behind it. -/
def IsDotted (path : StringType) : Prop :=
  path.take 1 = kCurrentDirectory ∧ 1 < path.length ∧ areAllSeparators (path.drop 1) = true

instance (path : StringType) : Decidable (IsDotted path) := inferInstanceAs (Decidable (_ ∧ _))

/-- Three separators, and something else behind them. -/
def IsTripled (path : StringType) : Prop := leading path = 3 ∧ 3 < path.length

instance (path : StringType) : Decidable (IsTripled path) := inferInstanceAs (Decidable (_ ∧ _))

/-- The root that the components start with. -/
def splitRoot (path : StringType) : List StringType :=
  if IsTripled path then [row 2] else naiveRoot (leading path)

/-- The components behind the root. -/
def splitNames (path : StringType) : List StringType :=
  if leading path = 0 ∧ ¬IsDotted path then withoutDot (pieces kSeparator path) else pieces kSeparator path

theorem areAllSeparators_row (n : Nat) : areAllSeparators (row n) = true :=
  List.all_eq_true.mpr fun _ member => isSeparator_iff.mpr (List.eq_of_mem_replicate member)

theorem areAllSeparators_rootOf (n : Nat) : areAllSeparators (rootOf n) = true := by
  match n with
  | 0 | 1 | 2 => rfl
  | n + 3 => rfl

theorem not_areAllSeparators (nonempty : text ≠ []) (plain : kSeparator ∉ text) : areAllSeparators text = false := by
  refine Bool.eq_false_iff.mpr fun all => ?_
  obtain ⟨first, member⟩ := List.exists_mem_of_ne_nil text nonempty
  exact plain (isSeparator_iff.mp (List.all_eq_true.mp all first member) ▸ member)

theorem eq_row_of_areAllSeparators (all : areAllSeparators text = true) : text = row text.length :=
  separators_eq_row fun c member => isSeparator_iff.mp (List.all_eq_true.mp all c member)

theorem isDotted_iff (path : StringType) : IsDotted path ↔ ∃ n, path = kCurrentDirectory ++ row (n + 1) := by
  constructor
  · rintro ⟨dot, long, separators⟩
    have rest := eq_row_of_areAllSeparators separators
    rw [List.length_drop] at rest
    refine ⟨path.length - 2, ?_⟩
    rw [show path.length - 2 + 1 = path.length - 1 by omega, ← rest, ← dot, List.take_append_drop]
  · rintro ⟨n, rfl⟩
    refine ⟨rfl, ?_, areAllSeparators_row (n + 1)⟩
    rw [List.length_append, List.length_replicate]
    exact Nat.lt_add_of_pos_right (Nat.succ_pos n)

theorem leading_row_append (n : Nat) (plain : ∀ c ∈ text.head?, c ≠ kSeparator) : leading (row n ++ text) = n := by
  have stops : text.takeWhile isSeparator = [] := by
    cases text with
    | nil => rfl
    | cons first rest =>
      exact List.takeWhile_cons_of_neg fun separator => plain first rfl (isSeparator_iff.mp separator)
  rw [leading, List.takeWhile_append_of_pos fun c member => isSeparator_iff.mpr (List.eq_of_mem_replicate member),
    stops, List.append_nil, List.length_replicate]

theorem head_plain (plain : kSeparator ∉ text) (more : StringType) (nonempty : text ≠ []) :
    ∀ c ∈ (text ++ more).head?, c ≠ kSeparator := by
  cases text with
  | nil => exact absurd rfl nonempty
  | cons first rest =>
    intro c same separator
    rw [List.cons_append, List.head?_cons, Option.mem_some_iff] at same
    exact plain (separator ▸ same ▸ List.mem_cons_self)

theorem leading_lt (other : areAllSeparators text = false) : leading text < text.length := by
  have most : leading text ≤ text.length := (List.takeWhile_prefix isSeparator).length_le
  refine lt_of_le_of_ne most fun whole => ?_
  have same := (List.takeWhile_prefix isSeparator (l := text)).eq_of_length whole
  have all : areAllSeparators text = true := List.all_eq_true.mpr (List.takeWhile_eq_self_iff.mp same)
  rw [all] at other
  cases other

/-- What is behind a text that is not a row of separators has no part in the leading ones. -/
theorem leading_append (other : areAllSeparators text = false) (more : StringType) :
    leading (text ++ more) = leading text := by
  rw [leading, leading, List.takeWhile_append]
  split
  next whole => exact absurd whole (leading_lt other).ne
  next => rfl

theorem leading_row (n : Nat) : leading (row n) = n := by
  have plain : ∀ c ∈ ([] : StringType).head?, c ≠ kSeparator := fun c none_ => by cases none_
  have whole := leading_row_append n plain
  rwa [List.append_nil] at whole

theorem pieces_row (n : Nat) : pieces kSeparator (row n) = [] := by
  have rest := pieces_append_replicate kSeparator [] n
  rwa [List.nil_append, pieces_nil] at rest

theorem not_isTripled_row (n : Nat) : ¬IsTripled (row n) := by
  rintro ⟨three, long⟩
  rw [leading_row] at three
  rw [List.length_replicate] at long
  omega

theorem splitNames_row (n : Nat) : splitNames (row n) = [] := by
  rw [splitNames, pieces_row]
  exact ite_self []

theorem splitRoot_row (n : Nat) : splitRoot (row n) = naiveRoot n := by
  rw [splitRoot, if_neg (not_isTripled_row n), leading_row]

theorem naiveRoot_succ (n : Nat) : naiveRoot (n + 1) = [rootOf (n + 1)] := by
  match n with
  | 0 | 1 => rfl
  | n + 2 => rfl

theorem withoutDot_append {first : List StringType} (some_ : first ≠ []) (rest : List StringType) :
    withoutDot (first ++ rest) = withoutDot first ++ rest := by
  cases first with
  | nil => exact absurd rfl some_
  | cons piece first =>
    rw [List.cons_append, withoutDot, withoutDot]
    split
    · rfl
    · rfl

section Splitting

variable {path front base : StringType} {behind : Nat}

theorem Named.other (named : Named path front base behind) : areAllSeparators (front ++ base) = false := by
  have baseOther := not_areAllSeparators named.nonempty named.plain
  rw [areAllSeparators] at baseOther ⊢
  rw [List.all_append, baseOther, Bool.and_false]

/-- The last component is the last piece. -/
theorem Named.pieces (named : Named path front base behind) :
    pieces kSeparator path = Library.pieces kSeparator front ++ [base] := by
  have last := pieces_of_plain named.plain named.nonempty
  rw [named.split, pieces_append_replicate]
  cases named.leads with
  | inl empty => rw [empty, List.nil_append, last, pieces_nil, List.nil_append]
  | inr leads =>
    obtain ⟨rest, rfl⟩ := leads
    rw [List.append_assoc, List.singleton_append, pieces_append_cons, last, pieces_append_cons, pieces_nil,
      List.append_nil]

theorem Named.leading_alone (named : Named path [] base behind) : leading path = 0 := by
  have start := leading_row_append 0 (head_plain named.plain (row behind) named.nonempty)
  rwa [row_zero, List.nil_append, ← List.nil_append base, ← named.split] at start

theorem Named.split_alone (named : Named path [] base behind) :
    splitRoot path ++ splitNames path = if path = kCurrentDirectory then [] else [base] := by
  have start := named.leading_alone
  have whole := named.split
  rw [List.nil_append] at whole
  have single : ¬IsTripled path := by
    rintro ⟨three, -⟩
    rw [start] at three
    cases three
  have roots : splitRoot path = [] := by
    rw [splitRoot, if_neg single, start]
    rfl
  have found : Library.pieces kSeparator path = [base] := named.pieces
  rw [roots, List.nil_append, splitNames, found]
  by_cases dot : base = kCurrentDirectory
  · cases behind with
    | zero =>
      have here : path = kCurrentDirectory := by rw [whole, dot, row_zero, List.append_nil]
      have bare : ¬IsDotted kCurrentDirectory := by decide
      rw [start, here, dot, if_pos ⟨rfl, bare⟩, if_pos rfl]
      rfl
    | succ behind =>
      have dotted : IsDotted path := (isDotted_iff path).mpr ⟨behind, dot ▸ whole⟩
      have longer : path ≠ kCurrentDirectory := fun same => by
        have long := dotted.2.1
        rw [same] at long
        cases long with
        | step impossible => cases impossible
      rw [if_neg (fun both => both.2 dotted), if_neg longer]
  · have other : path ≠ kCurrentDirectory := by
      intro same
      have first := congrArg (Library.pieces kSeparator) same
      rw [found] at first
      exact dot (List.cons.inj first).1
    have kept : withoutDot [base] = [base] := if_neg dot
    rw [if_neg other, kept, ite_self]

theorem Named.split_rooted {n : Nat} (named : Named path (row (n + 1)) base behind) :
    splitRoot path ++ splitNames path = [rootBefore (n + 1), base] := by
  have whole := named.split
  rw [List.append_assoc] at whole
  have start : leading path = n + 1 := by
    rw [whole]
    exact leading_row_append (n + 1) (head_plain named.plain (row behind) named.nonempty)
  have found : Library.pieces kSeparator path = [base] := by rw [named.pieces, pieces_row, List.nil_append]
  have long : n + 1 < path.length := by
    have positive : 0 < base.length := List.length_pos_iff.mpr named.nonempty
    rw [whole, List.length_append, List.length_append, List.length_replicate]
    omega
  have roots : splitRoot path = [rootBefore (n + 1)] := by
    by_cases three : n = 2
    · subst three
      rw [splitRoot, if_pos ⟨start, long⟩]
      rfl
    · have other : ¬IsTripled path := fun tripled => three (Nat.succ.inj (start.symm.trans tripled.1))
      rw [splitRoot, if_neg other, start, naiveRoot_succ, rootBefore]
      intro same
      omega
  rw [roots, splitNames, start, found, if_neg (by omega)]
  rfl

theorem Named.split_named {lead parent : StringType} {n : Nat} (named : Named path front base behind)
    (inner : Named front lead parent (n + 1)) :
    splitRoot path ++ splitNames path = splitRoot (lead ++ parent) ++ splitNames (lead ++ parent) ++ [base] := by
  have whole : path = lead ++ parent ++ (row (n + 1) ++ base ++ row behind) := by
    rw [named.split, inner.split]
    simp only [List.append_assoc]
  have other := inner.other
  have start : leading path = leading (lead ++ parent) := whole ▸ leading_append other _
  have inFront : Library.pieces kSeparator front = Library.pieces kSeparator (lead ++ parent) := by
    rw [inner.split, pieces_append_replicate]
  have bare : Named (lead ++ parent) lead parent 0 :=
    ⟨(List.append_nil _).symm, inner.leads, inner.nonempty, inner.plain⟩
  have some_ : Library.pieces kSeparator (lead ++ parent) ≠ [] := by
    rw [bare.pieces]
    exact List.append_ne_nil_of_right_ne_nil _ (List.cons_ne_nil _ _)
  have pathPlain : ¬IsDotted path := by
    intro dotted
    obtain ⟨n, same⟩ := (isDotted_iff path).mp dotted
    have single := named.pieces
    rw [same, pieces_append_replicate, inFront] at single
    exact some_ (List.append_eq_singleton_iff.mp single.symm |>.resolve_right (fun both => by cases both.2) |>.1)
  have innerPlain : ¬IsDotted (lead ++ parent) := by
    intro dotted
    obtain ⟨n, same⟩ := (isDotted_iff _).mp dotted
    have dot : Named (lead ++ parent) [] kCurrentDirectory (n + 1) := ⟨same, .inl rfl, by decide, by decide⟩
    have long := dotted.2.1
    rw [← bare.strip, dot.strip] at long
    cases long with
    | step impossible => cases impossible
  have roots : splitRoot path = splitRoot (lead ++ parent) := by
    have longer : (lead ++ parent).length ≤ path.length := by
      rw [whole]
      exact (List.prefix_append _ _).length_le
    have tripled : IsTripled path ↔ IsTripled (lead ++ parent) := by
      have proper := leading_lt other
      unfold IsTripled
      omega
    simp only [splitRoot, tripled, start]
  rw [roots, List.append_assoc]
  congr 1
  rw [splitNames, splitNames, start, named.pieces, inFront]
  by_cases relative : leading (lead ++ parent) = 0
  · rw [if_pos ⟨relative, pathPlain⟩, if_pos ⟨relative, innerPlain⟩, withoutDot_append some_]
  · rw [if_neg (fun both => relative both.1), if_neg (fun both => relative both.1)]

end Splitting

/-! ### Components -/

variable {current : StringType}

/-- The loop ends at a path that is its own directory. -/
theorem componentsFrom_root (root : dirName current = current) (turns : Nat) (ret_val : List StringType) :
    componentsFrom (turns + 1) current ret_val =
      some (if baseName current ≠ [] ∧ baseName current ≠ kCurrentDirectory then ret_val ++ [baseName current]
        else ret_val).reverse := by
  have stays : ¬current ≠ dirName current := not_not.mpr root.symm
  rw [componentsFrom]
  exact if_neg stays

theorem componentsFrom_step (shorter : current ≠ dirName current) (turns : Nat) (ret_val : List StringType) :
    componentsFrom (turns + 1) current ret_val =
      componentsFrom turns (dirName current)
        (if areAllSeparators (baseName current) then ret_val else ret_val ++ [baseName current]) := by
  rw [componentsFrom]
  exact if_pos shorter

theorem componentsFrom_rootOf (n turns : Nat) (ret_val : List StringType) :
    componentsFrom (turns + 1) (rootOf (n + 1)) ret_val = some (rootOf (n + 1) :: ret_val.reverse) := by
  have one (turns : Nat) (ret_val : List StringType) :
      componentsFrom (turns + 1) (row 1) ret_val = some (row 1 :: ret_val.reverse) := by
    have named : baseName (row 1) ≠ [] ∧ baseName (row 1) ≠ kCurrentDirectory := by decide
    rw [componentsFrom_root rfl, if_pos named, List.reverse_append]
    rfl
  have two (turns : Nat) (ret_val : List StringType) :
      componentsFrom (turns + 1) (row 2) ret_val = some (row 2 :: ret_val.reverse) := by
    have named : baseName (row 2) ≠ [] ∧ baseName (row 2) ≠ kCurrentDirectory := by decide
    rw [componentsFrom_root rfl, if_pos named, List.reverse_append]
    rfl
  match n with
  | 0 => exact one turns ret_val
  | 1 => exact two turns ret_val
  | n + 2 => exact one turns ret_val

theorem componentsFrom_row (n : Nat) {turns : Nat} (enough : n + 1 < turns) (ret_val : List StringType) :
    componentsFrom turns (row (n + 1)) ret_val = some (rootOf (n + 1) :: ret_val.reverse) := by
  obtain ⟨turns, rfl⟩ := Nat.exists_eq_add_one_of_ne_zero (Nat.ne_of_gt (Nat.zero_lt_of_lt enough))
  match n with
  | 0 => exact componentsFrom_rootOf 0 turns ret_val
  | 1 => exact componentsFrom_rootOf 1 turns ret_val
  | n + 2 =>
    have dir : dirName (row (n + 3)) = row 1 := dirName_row (n + 3)
    have base : baseName (row (n + 3)) = row 1 := baseName_row (n + 3)
    have shorter : row (n + 3) ≠ dirName (row (n + 3)) := by
      rw [dir]
      intro same
      cases congrArg List.length same
    obtain ⟨turns, rfl⟩ := Nat.exists_eq_add_one_of_ne_zero (show turns ≠ 0 by omega)
    rw [componentsFrom_step shorter, dir, base, areAllSeparators_row, if_pos rfl]
    exact componentsFrom_rootOf 0 turns ret_val

theorem rootBefore_eq (n : Nat) : ∃ m, rootBefore (n + 1) = rootOf (m + 1) ∧ (rootOf (m + 1)).length ≤ n + 1 := by
  match n with
  | 0 => exact ⟨0, rfl, Nat.le_refl _⟩
  | 1 | 2 => exact ⟨1, rfl, by decide⟩
  | n + 3 => exact ⟨2, rfl, Nat.le_add_left _ _⟩

theorem componentsFrom_eq (turns : Nat) (nonempty : current ≠ []) (enough : current.length < turns)
    (ret_val : List StringType) :
    componentsFrom turns current ret_val = some (splitRoot current ++ splitNames current ++ ret_val.reverse) := by
  induction turns generalizing current ret_val with
  | zero => cases enough
  | succ turns ih =>
    cases row_or_named current with
    | inl same =>
      obtain ⟨n, rfl⟩ := same
      cases n with
      | zero => exact absurd rfl nonempty
      | succ n =>
        have enough : n + 1 < turns + 1 := by rwa [List.length_replicate] at enough
        rw [componentsFrom_row n enough, splitRoot_row, splitNames_row, naiveRoot_succ, List.append_nil]
        rfl
    | inr named =>
      obtain ⟨front, base, behind, named⟩ := named
      have whole : current.length = front.length + base.length + behind := by
        rw [named.split, List.length_append, List.length_append, List.length_replicate]
      have positive : 0 < base.length := List.length_pos_iff.mpr named.nonempty
      have pushed (ret_val : List StringType) : (ret_val ++ [base]).reverse = [base] ++ ret_val.reverse :=
        List.reverse_append
      have kept := not_areAllSeparators named.nonempty named.plain
      rcases named.front_cases with rfl | ⟨n, rfl⟩ | ⟨lead, parent, n, inner⟩
      · have dir := named.dirName_alone
        rw [named.split_alone]
        by_cases here : current = kCurrentDirectory
        · subst here
          rw [if_pos rfl, componentsFrom_root dir]
          rfl
        · have shorter : current ≠ dirName current := dir ▸ here
          obtain ⟨turns, rfl⟩ := Nat.exists_eq_add_one_of_ne_zero (show turns ≠ 0 by omega)
          have done : dirName kCurrentDirectory = kCurrentDirectory := rfl
          rw [if_neg here, componentsFrom_step shorter, named.baseName, kept, dir, componentsFrom_root done, ← pushed]
          rfl
      · obtain ⟨m, root, short⟩ := rootBefore_eq n
        have dir := named.dirName_rooted
        have inFront : (row (n + 1)).length = n + 1 := List.length_replicate
        have different : current ≠ dirName current := by
          rw [dir, root]
          exact fun same => absurd (congrArg List.length same) (by omega)
        obtain ⟨turns, rfl⟩ := Nat.exists_eq_add_one_of_ne_zero (show turns ≠ 0 by omega)
        rw [componentsFrom_step different, named.baseName, kept, dir, root, componentsFrom_rootOf, named.split_rooted,
          root, if_neg Bool.false_ne_true, pushed]
        rfl
      · have dir := named.dirName_named inner
        have inFront : front.length = (lead ++ parent).length + (n + 1) := by
          rw [inner.split, List.length_append, List.length_replicate]
        have shorter : (lead ++ parent).length < current.length := by omega
        have different : current ≠ dirName current := by
          rw [dir]
          exact fun same => shorter.ne' (congrArg List.length same)
        have some_ : lead ++ parent ≠ [] := List.append_ne_nil_of_right_ne_nil _ inner.nonempty
        rw [componentsFrom_step different, named.baseName, kept, dir, ih some_ (by omega), named.split_named inner,
          if_neg Bool.false_ne_true, pushed, List.append_assoc (splitRoot (lead ++ parent) ++ _)]

/-- `GetComponents` terminates, with the root and the names. -/
theorem getComponents_eq (path : StringType) : getComponents path = some (splitRoot path ++ splitNames path) := by
  rw [getComponents]
  split
  next empty =>
    subst empty
    rfl
  next some_ =>
    have done := componentsFrom_eq (path.length + 1) some_ (Nat.lt_succ_self _) []
    rwa [List.reverse_nil, List.append_nil] at done

theorem getComponents_rootOf (n : Nat) : getComponents (rootOf (n + 1)) = some [rootOf (n + 1)] := by
  have some_ : rootOf (n + 1) ≠ [] := by
    match n with
    | 0 | 1 | n + 2 => exact List.cons_ne_nil _ _
  rw [getComponents, if_neg some_]
  exact componentsFrom_rootOf n _ []

/-- The components are the naive split; when the last one is no root, it is the base name, and the others are the
components of the directory. -/
structure Splits (path : StringType) : Prop where
  naive : getComponents path = some (naiveSplit path)
  last : ∀ components last, getComponents path = some (components ++ [last]) → areAllSeparators last = false →
    getComponents (dirName path) = some components ∧ baseName path = last

theorem components_last {path : StringType} {components : List StringType} {last : StringType}
    (whole : getComponents path = some (components ++ [last])) (name : areAllSeparators last = false) :
    getComponents (dirName path) = some components ∧ baseName path = last := by
  rw [getComponents_eq, Option.some.injEq] at whole
  cases row_or_named path with
  | inl same =>
    obtain ⟨n, rfl⟩ := same
    rw [splitRoot_row, splitNames_row, List.append_nil] at whole
    cases n with
    | zero => exact absurd whole.symm (List.append_ne_nil_of_right_ne_nil _ (List.cons_ne_nil _ _))
    | succ n =>
      rw [naiveRoot_succ] at whole
      have alone : [] ++ [rootOf (n + 1)] = components ++ [last] := whole
      have root : rootOf (n + 1) = last := (List.cons.inj (List.append_inj' alone rfl).2).1
      rw [← root, areAllSeparators_rootOf] at name
      cases name
  | inr named =>
    obtain ⟨front, base, behind, named⟩ := named
    have ends (first : List StringType) (same : first ++ [base] = components ++ [last]) :
        first = components ∧ base = last := by
      obtain ⟨front, back⟩ := List.append_inj' same rfl
      exact ⟨front, (List.cons.inj back).1⟩
    rw [named.baseName]
    rcases named.front_cases with rfl | ⟨n, rfl⟩ | ⟨lead, parent, n, inner⟩
    · rw [named.split_alone] at whole
      by_cases here : path = kCurrentDirectory
      · rw [if_pos here] at whole
        exact absurd whole.symm (List.append_ne_nil_of_right_ne_nil _ (List.cons_ne_nil _ _))
      · rw [if_neg here] at whole
        obtain ⟨rfl, same⟩ := ends [] whole
        rw [named.dirName_alone]
        exact ⟨rfl, same⟩
    · rw [named.split_rooted] at whole
      obtain ⟨m, root, -⟩ := rootBefore_eq n
      obtain ⟨rfl, same⟩ := ends [rootBefore (n + 1)] whole
      rw [named.dirName_rooted, root]
      exact ⟨getComponents_rootOf m, same⟩
    · rw [named.split_named inner] at whole
      obtain ⟨rfl, same⟩ := ends _ whole
      rw [named.dirName_named inner]
      exact ⟨getComponents_eq _, same⟩

theorem leading_of_isDotted {path : StringType} (dotted : IsDotted path) : leading path = 0 := by
  obtain ⟨n, rfl⟩ := (isDotted_iff path).mp dotted
  rfl

theorem pieces_of_isDotted {path : StringType} (dotted : IsDotted path) :
    pieces kSeparator path = [kCurrentDirectory] := by
  obtain ⟨n, rfl⟩ := (isDotted_iff path).mp dotted
  rw [pieces_append_replicate]
  rfl

theorem naive_iff (path : StringType) :
    splitRoot path ++ splitNames path = naiveSplit path ↔ ¬IsTripled path ∧ ¬IsDotted path := by
  by_cases relative : leading path = 0
  · have single : ¬IsTripled path := fun tripled => by
      have three := tripled.1
      omega
    have roots : splitRoot path = [] := by
      rw [splitRoot, if_neg single, relative]
      rfl
    rw [roots, List.nil_append, splitNames, naiveSplit, if_pos relative]
    by_cases dotted : IsDotted path
    · have different : ¬[kCurrentDirectory] = withoutDot [kCurrentDirectory] := by decide
      rw [if_neg fun both => both.2 dotted, pieces_of_isDotted dotted]
      exact iff_of_false different fun both => both.2 dotted
    · rw [if_pos ⟨relative, dotted⟩]
      exact iff_of_true rfl ⟨single, dotted⟩
  · have bare : ¬IsDotted path := fun dotted => relative (leading_of_isDotted dotted)
    rw [splitNames, if_neg fun both => relative both.1, naiveSplit, if_neg relative, List.append_left_inj, splitRoot]
    by_cases tripled : IsTripled path
    · have different : ¬[row 2] = naiveRoot 3 := by decide
      rw [if_pos tripled, tripled.1]
      exact iff_of_false different fun both => both.1 tripled
    · rw [if_neg tripled]
      exact iff_of_true rfl ⟨tripled, bare⟩

/-- The components are as the naive split has them, but for three separators before a name and for a dot before
separators. -/
theorem splits_iff (path : StringType) : Splits path ↔ ¬IsTripled path ∧ ¬IsDotted path := by
  rw [← naive_iff]
  constructor
  · intro splits
    have naive := splits.naive
    rwa [getComponents_eq, Option.some.injEq] at naive
  · intro same
    constructor
    · rw [getComponents_eq, same]
    · exact fun components last => components_last

/-- `///a` has the root `//`. -/
theorem not_splits_tripled : ¬∀ path : StringType, kStringTerminator ∉ path → Splits path := by
  intro always
  have naive := (always [0x2f, 0x2f, 0x2f, 0x61] (by decide)).naive
  have found : getComponents [0x2f, 0x2f, 0x2f, 0x61] = some [row 2, [0x61]] := by decide
  have expected : naiveSplit [0x2f, 0x2f, 0x2f, 0x61] = [row 1, [0x61]] := by decide
  rw [found, expected] at naive
  cases naive

end FilePath

end Libchrome.Base
