import Libchrome.Base.Files.FilePathParents

/-!
# Extensions of paths

`Extension` looks at the base name of a path, `RemoveExtension` at all of its string.
-/

namespace Libchrome.Base.FilePath

open Library Bytes

def kCommonDoubleExtensionSuffixes : List StringType := [[0x67, 0x7a], [0x7a], [0x62, 0x7a, 0x32], [0x62, 0x7a]]

def kCommonDoubleExtensions : List StringType := [[0x75, 0x73, 0x65, 0x72, 0x2e, 0x6a, 0x73]]

def toLowerASCII (c : Byte) : Byte := if 0x41 ≤ c ∧ c ≤ 0x5a then c + 0x20 else c

def lowerCaseEqualsASCII (str lowercase_ascii : StringType) : Bool := str.map toLowerASCII = lowercase_ascii

/-- The last place of a character below `bound`. -/
def rfind (text : StringType) (c : Byte) (bound : Nat) : Option Nat :=
  Searching.highest (fun i => text[i]? = some c) bound

def finalExtensionSeparatorPosition (path : StringType) : Option Nat :=
  if path = kCurrentDirectory ∨ path = kParentDirectory then none
  else rfind path kExtensionSeparator path.length

def extensionSeparatorPosition (path : StringType) : Option Nat :=
  match finalExtensionSeparatorPosition path with
  | none => none
  | some last_dot =>
    if last_dot = 0 then some last_dot
    else
      match rfind path kExtensionSeparator last_dot with
      | none => some last_dot
      | some penultimate_dot =>
        if (Searching.highest (fun i => path[i]?.any kSeparators.contains) last_dot).any (penultimate_dot < ·) then
          some last_dot
        else if kCommonDoubleExtensions.any (lowerCaseEqualsASCII (path.drop (penultimate_dot + 1))) then
          some penultimate_dot
        else if kCommonDoubleExtensionSuffixes.any (lowerCaseEqualsASCII (path.drop (last_dot + 1))) ∧
            last_dot - penultimate_dot ≤ 5 ∧ last_dot - penultimate_dot > 1 then
          some penultimate_dot
        else some last_dot

def isEmptyOrSpecialCase (path : StringType) : Prop :=
  path = [] ∨ path = kCurrentDirectory ∨ path = kParentDirectory

instance (path : StringType) : Decidable (isEmptyOrSpecialCase path) := inferInstanceAs (Decidable (_ ∨ _))

def extension (path : StringType) : StringType :=
  let base := baseName path
  match extensionSeparatorPosition base with
  | none => []
  | some dot => base.drop dot

def removeExtension (path : StringType) : StringType :=
  if extension path = [] then path
  else
    match extensionSeparatorPosition path with
    | none => path
    | some dot => construct (path.take dot)

def insertBeforeExtension (path suffix : StringType) : StringType :=
  if suffix = [] then construct path
  else if isEmptyOrSpecialCase (baseName path) then []
  else construct (removeExtension path ++ suffix ++ extension path)

def replaceExtension (path new_extension : StringType) : StringType :=
  if isEmptyOrSpecialCase (baseName path) then []
  else
    let no_ext := removeExtension path
    if new_extension = [] ∨ new_extension = [kExtensionSeparator] then no_ext
    else
      let str := if new_extension[0]? ≠ some kExtensionSeparator then no_ext ++ [kExtensionSeparator] else no_ext
      construct (str ++ new_extension)

/-! ### Dots in names -/

/-- The two parts make a double extension: `user.js`, or a compressed file with up to four letters before. -/
def Recognised (first last : StringType) : Prop :=
  kCommonDoubleExtensions.any (lowerCaseEqualsASCII (first ++ kExtensionSeparator :: last)) = true ∨
    kCommonDoubleExtensionSuffixes.any (lowerCaseEqualsASCII last) = true ∧ 1 ≤ first.length ∧ first.length ≤ 4

instance (first last : StringType) : Decidable (Recognised first last) := inferInstanceAs (Decidable (_ ∨ _))

/-- A name with a recognised double extension. -/
def IsDouble (name : StringType) : Prop :=
  ∃ stem first last, name = stem ++ kExtensionSeparator :: (first ++ kExtensionSeparator :: last) ∧
    kExtensionSeparator ∉ first ∧ kExtensionSeparator ∉ last ∧ Recognised first last

/-- A text with a dot has a last one. -/
theorem exists_last_dot {text : StringType} (member : kExtensionSeparator ∈ text) :
    ∃ stem last, text = stem ++ kExtensionSeparator :: last ∧ kExtensionSeparator ∉ last := by
  induction text with
  | nil => cases member
  | cons c rest ih =>
    by_cases later : kExtensionSeparator ∈ rest
    · obtain ⟨stem, last, rfl, plain⟩ := ih later
      exact ⟨c :: stem, last, rfl, plain⟩
    · have first : kExtensionSeparator = c := (List.mem_cons.mp member).resolve_right later
      exact ⟨[], rest, first ▸ rfl, later⟩

theorem rfind_plain {text : StringType} {c : Byte} {bound : Nat} (plain : c ∉ text.take bound) :
    rfind text c bound = none := by
  refine Searching.highest_eq_none_iff.mpr fun i inside => decide_eq_false fun found => plain ?_
  obtain ⟨_, same⟩ := List.getElem?_eq_some_iff.mp found
  exact List.mem_take_iff_getElem.mpr ⟨i, by omega, same⟩

theorem rfind_last (stem : StringType) {last : StringType} {c : Byte} (plain : c ∉ last) {bound : Nat}
    (after : stem.length < bound) : rfind (stem ++ c :: last) c bound = some stem.length := by
  refine Searching.highest_eq_some_iff.mpr ⟨after, ?_, fun i later inside => decide_eq_false fun found => plain ?_⟩
  · rw [List.getElem?_append_right (Nat.le_refl _), Nat.sub_self]
    exact decide_eq_true rfl
  · obtain ⟨n, rfl⟩ := Nat.exists_eq_add_of_lt later
    rw [List.getElem?_append_right (by omega), show stem.length + n + 1 - stem.length = n + 1 by omega,
      List.getElem?_cons_succ] at found
    exact List.mem_of_getElem? found

theorem rfind_append (front back : StringType) (c : Byte) :
    rfind (front ++ back) c front.length = rfind front c front.length := by
  refine Searching.highest_congr fun i => and_congr_right fun inside => ?_
  rw [List.getElem?_append_left inside]

theorem highest_separator_append (front back : StringType) :
    Searching.highest (fun i => (front ++ back)[i]?.any kSeparators.contains) front.length =
      findLastOf front kSeparators := by
  refine Searching.highest_congr fun i => and_congr_right fun inside => ?_
  rw [List.getElem?_append_left inside]

section Positions

variable {lead name tail : StringType}

/-- The text before a name: nothing, or a text up to a separator. -/
def Leads (lead : StringType) : Prop := lead = [] ∨ ∃ rest, lead = rest ++ [kSeparator]

theorem findLastOf_lead (leads : Leads lead) (plain : kSeparator ∉ name) :
    ∀ i ∈ findLastOf (lead ++ name) kSeparators, i + 1 = lead.length := by
  intro i found
  rcases leads with rfl | ⟨rest, rfl⟩
  · rw [List.nil_append, findLastOf_plain plain] at found
    cases found
  · rw [findLastOf_behind rest plain, Option.mem_some_iff] at found
    rw [List.length_append, ← found]
    rfl

theorem position_before_name (leads : Leads lead) (plain : kSeparator ∉ name) (undotted : kExtensionSeparator ∉ name)
    {penultimate_dot : Nat}
    (found : rfind (lead ++ name) kExtensionSeparator (lead ++ name).length = some penultimate_dot) :
    (findLastOf (lead ++ name) kSeparators).any (penultimate_dot < ·) = true := by
  have inLead : kExtensionSeparator ∈ lead := by
    by_contra absent
    have none_ : kExtensionSeparator ∉ (lead ++ name).take (lead ++ name).length := by
      rw [List.take_length, List.mem_append, not_or]
      exact ⟨absent, undotted⟩
    rw [rfind_plain none_] at found
    cases found
  obtain ⟨stem, last, whole, lastPlain⟩ := exists_last_dot inLead
  rcases leads with rfl | ⟨rest, same⟩
  · cases inLead
  · have later : kExtensionSeparator ∉ last ++ name := by
      rw [List.mem_append, not_or]
      exact ⟨lastPlain, undotted⟩
    have place := rfind_last stem later (show stem.length < (lead ++ name).length by
      rw [whole, List.length_append, List.length_append]
      exact Nat.lt_add_right _ (Nat.lt_add_of_pos_right (Nat.succ_pos _)))
    rw [whole, List.append_assoc, List.cons_append] at found
    rw [whole, List.append_assoc, List.cons_append, found] at place
    have stops : stem.length < rest.length := by
      obtain ⟨more, final, ends⟩ : ∃ more final, last = more ++ [final] := by
        cases List.eq_nil_or_concat' last with
        | inl empty =>
          rw [empty] at whole
          have impossible := (List.append_inj' (whole.symm.trans same) rfl).2
          cases impossible
        | inr ends => exact ends
      have lengths := congrArg List.length (whole.symm.trans same)
      rw [ends, List.length_append, List.length_cons, List.length_append, List.length_append] at lengths
      simp only [List.length_singleton] at lengths
      omega
    rw [same, findLastOf_behind rest plain, Option.any_some]
    exact decide_eq_true ((Option.some.inj place) ▸ stops)

theorem rfind_end (tail_plain : kExtensionSeparator ∉ tail) :
    rfind (name ++ kExtensionSeparator :: tail) kExtensionSeparator (name ++ kExtensionSeparator :: tail).length =
      some name.length := by
  apply rfind_last name tail_plain
  rw [List.length_append, List.length_cons]
  exact Nat.lt_add_of_pos_right (Nat.succ_pos _)

theorem position_of_found {last_dot : Nat} {text : StringType}
    (final : finalExtensionSeparatorPosition text = some last_dot) (positive : last_dot ≠ 0) :
    extensionSeparatorPosition text =
      match rfind text kExtensionSeparator last_dot with
      | none => some last_dot
      | some penultimate_dot =>
        if (Searching.highest (fun i => text[i]?.any kSeparators.contains) last_dot).any (penultimate_dot < ·) then
          some last_dot
        else if kCommonDoubleExtensions.any (lowerCaseEqualsASCII (text.drop (penultimate_dot + 1))) then
          some penultimate_dot
        else if kCommonDoubleExtensionSuffixes.any (lowerCaseEqualsASCII (text.drop (last_dot + 1))) ∧
            last_dot - penultimate_dot ≤ 5 ∧ last_dot - penultimate_dot > 1 then
          some penultimate_dot
        else some last_dot := by
  rw [extensionSeparatorPosition, final]
  exact if_neg positive

theorem finalPosition_eq (other : ¬(lead ++ name ++ kExtensionSeparator :: tail = kCurrentDirectory ∨
      lead ++ name ++ kExtensionSeparator :: tail = kParentDirectory)) (undotted : kExtensionSeparator ∉ tail) :
    finalExtensionSeparatorPosition (lead ++ name ++ kExtensionSeparator :: tail) = some (lead ++ name).length := by
  rw [finalExtensionSeparatorPosition, if_neg other]
  exact rfind_end undotted

theorem position_single (leads : Leads lead) (plain : kSeparator ∉ name) (nameUndotted : kExtensionSeparator ∉ name)
    (undotted : kExtensionSeparator ∉ tail)
    (other : ¬(lead ++ name ++ kExtensionSeparator :: tail = kCurrentDirectory ∨
      lead ++ name ++ kExtensionSeparator :: tail = kParentDirectory)) :
    extensionSeparatorPosition (lead ++ name ++ kExtensionSeparator :: tail) = some (lead ++ name).length := by
  have final := finalPosition_eq other undotted
  by_cases zero : (lead ++ name).length = 0
  · rw [extensionSeparatorPosition, final]
    exact if_pos zero
  · rw [position_of_found final zero, rfind_append]
    cases found : rfind (lead ++ name) kExtensionSeparator (lead ++ name).length with
    | none => rfl
    | some penultimate_dot =>
      simp only
      rw [highest_separator_append, if_pos (position_before_name leads plain nameUndotted found)]

/-- In a name with two dots or more, the last two parts decide. -/
theorem position_double {first : StringType} (leads : Leads lead) (namePlain : kSeparator ∉ name)
    (firstPlain : kSeparator ∉ first) (firstUndotted : kExtensionSeparator ∉ first)
    (undotted : kExtensionSeparator ∉ tail)
    (other : ¬(lead ++ (name ++ kExtensionSeparator :: first) ++ kExtensionSeparator :: tail = kCurrentDirectory ∨
      lead ++ (name ++ kExtensionSeparator :: first) ++ kExtensionSeparator :: tail = kParentDirectory)) :
    extensionSeparatorPosition (lead ++ (name ++ kExtensionSeparator :: first) ++ kExtensionSeparator :: tail) =
      some (if Recognised first tail then (lead ++ name).length
        else (lead ++ (name ++ kExtensionSeparator :: first)).length) := by
  have length : (lead ++ (name ++ kExtensionSeparator :: first)).length =
      (lead ++ name).length + (first.length + 1) := by
    rw [← List.append_assoc, List.length_append, List.length_cons]
  have plain : kSeparator ∉ name ++ kExtensionSeparator :: first := by
    rw [List.mem_append, List.mem_cons, not_or, not_or]
    exact ⟨namePlain, by decide, firstPlain⟩
  have penultimate : rfind (lead ++ (name ++ kExtensionSeparator :: first)) kExtensionSeparator
      (lead ++ (name ++ kExtensionSeparator :: first)).length = some (lead ++ name).length := by
    rw [← List.append_assoc]
    exact rfind_end firstUndotted
  have inside : ¬(findLastOf (lead ++ (name ++ kExtensionSeparator :: first)) kSeparators).any
      ((lead ++ name).length < ·) = true := by
    rw [Option.any_eq_true]
    rintro ⟨i, found, later⟩
    have before := findLastOf_lead leads plain i found
    have later := of_decide_eq_true later
    rw [List.length_append] at later
    omega
  have afterFirst : (lead ++ (name ++ kExtensionSeparator :: first) ++ kExtensionSeparator :: tail).drop
      ((lead ++ name).length + 1) = first ++ kExtensionSeparator :: tail := by
    have split : lead ++ (name ++ kExtensionSeparator :: first) ++ kExtensionSeparator :: tail =
        lead ++ name ++ [kExtensionSeparator] ++ (first ++ kExtensionSeparator :: tail) := by
      simp only [List.append_assoc, List.cons_append, List.nil_append]
    rw [split]
    exact List.drop_left' (List.length_append)
  have afterLast : (lead ++ (name ++ kExtensionSeparator :: first) ++ kExtensionSeparator :: tail).drop
      ((lead ++ (name ++ kExtensionSeparator :: first)).length + 1) = tail := by
    rw [List.append_cons (lead ++ (name ++ kExtensionSeparator :: first))]
    exact List.drop_left' (List.length_append)
  have distance : (lead ++ (name ++ kExtensionSeparator :: first)).length - (lead ++ name).length =
      first.length + 1 := by omega
  rw [position_of_found (finalPosition_eq other undotted) (by omega), rfind_append, penultimate]
  simp only
  rw [highest_separator_append, if_neg inside, afterFirst, afterLast, distance]
  by_cases common : kCommonDoubleExtensions.any (lowerCaseEqualsASCII (first ++ kExtensionSeparator :: tail)) = true
  · rw [if_pos common, if_pos (.inl common)]
  · rw [if_neg common]
    by_cases suffix : kCommonDoubleExtensionSuffixes.any (lowerCaseEqualsASCII tail) = true ∧ 1 ≤ first.length ∧
        first.length ≤ 4
    · rw [if_pos ⟨suffix.1, by omega, by omega⟩, if_pos (.inr suffix)]
    · have none_ : ¬Recognised first tail := fun recognised => suffix (recognised.resolve_left common)
      rw [if_neg fun both => suffix ⟨both.1, by omega, by omega⟩, if_neg none_]

end Positions

/-! ### Extensions of names -/

section Names

variable {name last : StringType}

theorem position_plain {text : StringType} (undotted : kExtensionSeparator ∉ text) :
    extensionSeparatorPosition text = none := by
  have none_ : finalExtensionSeparatorPosition text = none := by
    rw [finalExtensionSeparatorPosition]
    split
    · rfl
    · exact rfind_plain (by rwa [List.take_length])
  rw [extensionSeparatorPosition, none_]

theorem baseName_lead {lead : StringType} (leads : Leads lead) (nonempty : name ≠ []) (plain : kSeparator ∉ name) :
    baseName (lead ++ name) = name := by
  have named : Named (lead ++ name) lead name 0 := ⟨(List.append_nil _).symm, leads, nonempty, plain⟩
  exact named.baseName

theorem extension_of_undotted {path : StringType} (undotted : kExtensionSeparator ∉ baseName path) :
    extension path = [] := by
  rw [extension, position_plain undotted]

/-- A name that ends in a part behind a dot has it as its extension, or has a recognised double extension. -/
theorem extension_name {path : StringType} (base : baseName path = name ++ kExtensionSeparator :: last)
    (plain : kSeparator ∉ name) (undotted : kExtensionSeparator ∉ last)
    (other : ¬isEmptyOrSpecialCase (name ++ kExtensionSeparator :: last)) :
    extension path = kExtensionSeparator :: last ∨ IsDouble (name ++ kExtensionSeparator :: last) := by
  have others : ¬([] ++ name ++ kExtensionSeparator :: last = kCurrentDirectory ∨
      [] ++ name ++ kExtensionSeparator :: last = kParentDirectory) := fun special => other (.inr special)
  rw [extension, base]
  by_cases dotted : kExtensionSeparator ∈ name
  · obtain ⟨stem, first, rfl, firstUndotted⟩ := exists_last_dot dotted
    rw [List.mem_append, List.mem_cons, not_or, not_or] at plain
    have position : extensionSeparatorPosition (stem ++ kExtensionSeparator :: first ++ kExtensionSeparator :: last) =
        some (if Recognised first last then stem.length else (stem ++ kExtensionSeparator :: first).length) :=
      position_double (.inl rfl) plain.1 plain.2.2 firstUndotted undotted others
    by_cases recognised : Recognised first last
    · right
      exact ⟨stem, first, last, by rw [List.append_assoc, List.cons_append], firstUndotted, undotted, recognised⟩
    · rw [position, if_neg recognised]
      exact .inl List.drop_left
  · have position : extensionSeparatorPosition (name ++ kExtensionSeparator :: last) = some name.length :=
      position_single (.inl rfl) plain dotted undotted others
    rw [position]
    exact .inl List.drop_left

/-- A recognised double extension is the extension. -/
theorem extension_double {path first : StringType}
    (base : baseName path = name ++ kExtensionSeparator :: (first ++ kExtensionSeparator :: last))
    (plain : kSeparator ∉ name) (firstPlain : kSeparator ∉ first) (firstUndotted : kExtensionSeparator ∉ first)
    (undotted : kExtensionSeparator ∉ last) (recognised : Recognised first last) :
    extension path = kExtensionSeparator :: (first ++ kExtensionSeparator :: last) := by
  have nonempty : first ≠ [] := by
    rintro rfl
    rcases recognised with common | suffix
    · cases last <;> simp [kCommonDoubleExtensions, lowerCaseEqualsASCII, toLowerASCII, kExtensionSeparator] at common
    · exact absurd suffix.2.1 (Nat.not_succ_le_zero 0)
  have split : name ++ kExtensionSeparator :: (first ++ kExtensionSeparator :: last) =
      name ++ kExtensionSeparator :: first ++ kExtensionSeparator :: last := by
    rw [List.append_assoc, List.cons_append]
  have others : ¬([] ++ (name ++ kExtensionSeparator :: first) ++ kExtensionSeparator :: last = kCurrentDirectory ∨
      [] ++ (name ++ kExtensionSeparator :: first) ++ kExtensionSeparator :: last = kParentDirectory) := by
    have positive : 0 < first.length := List.length_pos_iff.mpr nonempty
    rw [List.nil_append]
    rintro (same | same)
    · have short := congrArg List.length same
      simp only [List.length_append, List.length_cons, kCurrentDirectory, List.length_nil] at short
      omega
    · have short := congrArg List.length same
      simp only [List.length_append, List.length_cons, kParentDirectory, List.length_nil] at short
      omega
  have position : extensionSeparatorPosition (name ++ kExtensionSeparator :: first ++ kExtensionSeparator :: last) =
      some (if Recognised first last then name.length else (name ++ kExtensionSeparator :: first).length) :=
    position_double (.inl rfl) plain firstPlain firstUndotted undotted others
  rw [extension, base, split, position, if_pos recognised]
  rw [List.append_assoc]
  exact List.drop_left

theorem dots_of_special {text : StringType} (special : isEmptyOrSpecialCase text) :
    ∀ c ∈ text, c = kExtensionSeparator := by
  rcases special with rfl | rfl | rfl
  · intro c member
    cases member
  · decide
  · decide

theorem ordinary_of_mem {text part : StringType} (nonempty : part ≠ []) (undotted : kExtensionSeparator ∉ part)
    (inside : ∀ c ∈ part, c ∈ text) : ¬isEmptyOrSpecialCase text := by
  intro special
  obtain ⟨c, member⟩ := List.exists_mem_of_ne_nil part nonempty
  exact undotted (dots_of_special special c (inside c member) ▸ member)

theorem extension_ne_nil {path : StringType} (base : baseName path = name ++ kExtensionSeparator :: last)
    (plain : kSeparator ∉ baseName path) (undotted : kExtensionSeparator ∉ last)
    (ordinary : ¬isEmptyOrSpecialCase (baseName path)) : extension path ≠ [] := by
  rw [base] at plain ordinary
  have namePlain : kSeparator ∉ name := fun member => plain (List.mem_append_left _ member)
  rcases extension_name base namePlain undotted ordinary with single | ⟨stem, first, final, split, one, two, recognised⟩
  · rw [single]
    exact List.cons_ne_nil _ _
  · rw [split] at base plain
    rw [List.mem_append, List.mem_cons, List.mem_append, not_or, not_or, not_or] at plain
    rw [extension_double base plain.1 plain.2.2.1 one two recognised]
    exact List.cons_ne_nil _ _

end Names

/-! ### Removing extensions -/

theorem not_recognised_behind (first last : StringType) (behind : Nat) :
    ¬Recognised first (last ++ row (behind + 1)) := by
  have fails (text lowercase : StringType) (absent : kSeparator ∉ lowercase) :
      lowerCaseEqualsASCII (text ++ row (behind + 1)) lowercase = false := by
    refine decide_eq_false fun same => absent ?_
    rw [← same, row, List.replicate_succ', ← List.append_assoc, List.map_append]
    exact List.mem_append_right _ List.mem_cons_self
  have all (text : StringType) : ∀ table ∈ [kCommonDoubleExtensions, kCommonDoubleExtensionSuffixes],
      table.any (lowerCaseEqualsASCII (text ++ row (behind + 1))) = false := by
    intro table member
    refine List.any_eq_false.mpr fun lowercase listed => Bool.eq_false_iff.mp (fails text lowercase ?_)
    have plain : ∀ table ∈ [kCommonDoubleExtensions, kCommonDoubleExtensionSuffixes], ∀ lowercase ∈ table,
        kSeparator ∉ lowercase := by decide
    exact plain table member lowercase listed
  rintro (common | suffix)
  · have none_ := all (first ++ kExtensionSeparator :: last) kCommonDoubleExtensions List.mem_cons_self
    rw [List.append_assoc, List.cons_append, common] at none_
    cases none_
  · have none_ := all last kCommonDoubleExtensionSuffixes (List.mem_cons_of_mem _ List.mem_cons_self)
    rw [suffix.1] at none_
    cases none_

section Removing

variable {path front base name last : StringType} {behind : Nat}

theorem removeExtension_of_position {dot : Nat} (some_ : extension path ≠ []) (terminated : kStringTerminator ∉ path)
    (position : extensionSeparatorPosition path = some dot) : removeExtension path = path.take dot := by
  rw [removeExtension, if_neg some_, position]
  exact construct_eq fun member => terminated (List.mem_of_mem_take member)

theorem special_of_special (special : path = kCurrentDirectory ∨ path = kParentDirectory) :
    isEmptyOrSpecialCase (baseName path) := by
  rcases special with rfl | rfl
  · exact .inr (.inl rfl)
  · exact .inr (.inr rfl)

/-- Unless a recognised double extension stands at the end of the path, the last part of the name is removed. -/
theorem removeExtension_last (named : Named path front base behind) (split : base = name ++ kExtensionSeparator :: last)
    (undotted : kExtensionSeparator ∉ last) (ordinary : ¬isEmptyOrSpecialCase base)
    (terminated : kStringTerminator ∉ path) (single : ¬IsDouble base ∨ behind ≠ 0) :
    removeExtension path = front ++ name := by
  have found := named.baseName
  have some_ : extension path ≠ [] :=
    extension_ne_nil (found.trans split) (found ▸ named.plain) undotted (found ▸ ordinary)
  have plain : kSeparator ∉ name := fun member => named.plain (split ▸ List.mem_append_left _ member)
  have whole : path = front ++ name ++ kExtensionSeparator :: (last ++ row behind) := by
    rw [named.split, split]
    simp only [List.append_assoc, List.cons_append]
  have behindUndotted : kExtensionSeparator ∉ last ++ row behind := by
    rw [List.mem_append, not_or]
    exact ⟨undotted, fun member => absurd (List.eq_of_mem_replicate member) (by decide)⟩
  have other : ¬(path = kCurrentDirectory ∨ path = kParentDirectory) := fun special =>
    ordinary (found ▸ special_of_special special)
  have position : extensionSeparatorPosition path = some (front ++ name).length := by
    by_cases dotted : kExtensionSeparator ∈ name
    · obtain ⟨stem, first, rfl, firstUndotted⟩ := exists_last_dot dotted
      rw [List.mem_append, List.mem_cons, not_or, not_or] at plain
      have none_ : ¬Recognised first (last ++ row behind) := by
        intro recognised
        cases behind with
        | zero =>
          rw [row_zero, List.append_nil] at recognised
          refine (single.resolve_right (not_not.mpr rfl)) ⟨stem, first, last, ?_, firstUndotted, undotted, recognised⟩
          rw [split, List.append_assoc, List.cons_append]
        | succ behind => exact not_recognised_behind first last behind recognised
      have position := position_double named.leads plain.1 plain.2.2 firstUndotted behindUndotted (whole ▸ other)
      rw [if_neg none_] at position
      rw [whole]
      exact position
    · have position := position_single named.leads plain dotted behindUndotted (whole ▸ other)
      rw [whole]
      exact position
  rw [removeExtension_of_position some_ terminated position, whole]
  exact List.take_left

theorem removeExtension_double {first : StringType} (named : Named path front base 0)
    (split : base = name ++ kExtensionSeparator :: (first ++ kExtensionSeparator :: last))
    (firstUndotted : kExtensionSeparator ∉ first) (undotted : kExtensionSeparator ∉ last)
    (recognised : Recognised first last) (ordinary : ¬isEmptyOrSpecialCase base)
    (terminated : kStringTerminator ∉ path) : removeExtension path = front ++ name := by
  have found := named.baseName
  have plain := named.plain
  rw [split, List.mem_append, List.mem_cons, List.mem_append, not_or, not_or, not_or] at plain
  have some_ : extension path ≠ [] := by
    rw [extension_double (found.trans split) plain.1 plain.2.2.1 firstUndotted undotted recognised]
    exact List.cons_ne_nil _ _
  have whole : path = front ++ (name ++ kExtensionSeparator :: first) ++ kExtensionSeparator :: last := by
    rw [named.split, split, row_zero]
    simp only [List.append_assoc, List.cons_append, List.append_nil]
  have other : ¬(path = kCurrentDirectory ∨ path = kParentDirectory) := fun special =>
    ordinary (found ▸ special_of_special special)
  have position := position_double named.leads plain.1 plain.2.2.1 firstUndotted undotted (whole ▸ other)
  rw [if_pos recognised, ← whole] at position
  rw [removeExtension_of_position some_ terminated position, whole, ← List.append_assoc front,
    List.append_assoc (front ++ name)]
  exact List.take_left

end Removing

/-! ### Laws -/

/-- A suffix, or what is behind the dot of an extension. -/
structure IsPart (part : StringType) : Prop where
  nonempty : part ≠ []
  undotted : kExtensionSeparator ∉ part
  plain : kSeparator ∉ part
  terminated : kStringTerminator ∉ part

/-- What the operations on extensions do to a path. -/
structure ExtensionLaws (path : StringType) : Prop where
  /-- The two parts spell the path, which is left as it is when it has no extension. -/
  spells : stripTrailingSeparatorsInternal path = path ∨ ¬IsDouble (baseName path) →
    removeExtension path ++ extension path =
      if extension path = [] then path else stripTrailingSeparatorsInternal path
  unchanged : insertBeforeExtension path [] = path
  inserted : ∀ suffix, IsPart suffix →
    insertBeforeExtension path suffix = removeExtension path ++ suffix ++ extension path ∧
      (extension (insertBeforeExtension path suffix) = extension path ∨
        IsDouble (baseName (insertBeforeExtension path suffix)) ∧ ¬IsDouble (baseName path))
  replaced : ∀ part, IsPart part →
    extension (replaceExtension path (kExtensionSeparator :: part)) = kExtensionSeparator :: part ∨
      IsDouble (baseName (replaceExtension path (kExtensionSeparator :: part)))

section Laws

variable {path : StringType}

/-- A path whose base name has no dot ends in something without dots and separators. -/
theorem exists_lead (undotted : kExtensionSeparator ∉ baseName path) :
    ∃ lead name, path = lead ++ name ∧ Leads lead ∧ kSeparator ∉ name ∧ kExtensionSeparator ∉ name := by
  have ends (front : StringType) (n : Nat) : Leads (front ++ row (n + 1)) := by
    refine .inr ⟨front ++ row n, ?_⟩
    rw [row, List.replicate_succ', List.append_assoc]
  have nothing : kSeparator ∉ ([] : StringType) ∧ kExtensionSeparator ∉ ([] : StringType) :=
    ⟨List.not_mem_nil, List.not_mem_nil⟩
  cases row_or_named path with
  | inl same =>
    obtain ⟨n, rfl⟩ := same
    cases n with
    | zero => exact ⟨[], [], rfl, .inl rfl, nothing⟩
    | succ n => exact ⟨row (n + 1), [], (List.append_nil _).symm, ends [] n, nothing⟩
  | inr named =>
    obtain ⟨front, base, behind, named⟩ := named
    cases behind with
    | zero =>
      exact ⟨front, base, named.split.trans (List.append_nil _), named.leads, named.plain, named.baseName ▸ undotted⟩
    | succ behind => exact ⟨path, [], (List.append_nil _).symm, named.split ▸ ends _ behind, nothing⟩

theorem undotted_rootOf (n : Nat) : kExtensionSeparator ∉ rootOf n := by
  match n with
  | 0 | 1 | 2 => decide
  | n + 3 => exact (by decide : kExtensionSeparator ∉ row 1)

section
variable (terminated : kStringTerminator ∉ path)
include terminated

theorem terminated_extension : kStringTerminator ∉ extension path := by
  intro member
  cases row_or_named path with
  | inl same =>
    obtain ⟨n, rfl⟩ := same
    rw [extension_of_undotted (baseName_row n ▸ undotted_rootOf n)] at member
    cases member
  | inr named =>
    obtain ⟨front, base, behind, named⟩ := named
    rw [extension, named.baseName] at member
    have inBase : kStringTerminator ∈ base := by
      cases position : extensionSeparatorPosition base with
      | none =>
        rw [position] at member
        cases member
      | some dot =>
        rw [position] at member
        exact List.mem_of_mem_drop member
    apply terminated
    rw [named.split]
    exact List.mem_append_left _ (List.mem_append_right front inBase)

theorem terminated_removeExtension :
    kStringTerminator ∉ removeExtension path := by
  rw [removeExtension]
  split
  · exact terminated
  · split
    · exact terminated
    · exact not_mem_construct _

theorem insertBeforeExtension_eq
    (ordinary : ¬isEmptyOrSpecialCase (baseName path)) {suffix : StringType} (isPart : IsPart suffix) :
    insertBeforeExtension path suffix = removeExtension path ++ suffix ++ extension path := by
  rw [insertBeforeExtension, if_neg isPart.nonempty, if_neg ordinary]
  apply construct_eq
  rw [List.mem_append, List.mem_append, not_or, not_or]
  exact ⟨⟨terminated_removeExtension terminated, isPart.terminated⟩, terminated_extension terminated⟩

theorem replaceExtension_eq
    (ordinary : ¬isEmptyOrSpecialCase (baseName path)) {part : StringType} (isPart : IsPart part) :
    replaceExtension path (kExtensionSeparator :: part) = removeExtension path ++ kExtensionSeparator :: part := by
  have some_ : ¬(kExtensionSeparator :: part = [] ∨ kExtensionSeparator :: part = [kExtensionSeparator]) := by
    rintro (none_ | alone)
    · cases none_
    · exact isPart.nonempty (List.cons.inj alone).2
  have dotted : ¬(kExtensionSeparator :: part)[0]? ≠ some kExtensionSeparator := not_not.mpr rfl
  rw [replaceExtension, if_neg ordinary]
  simp only [if_neg some_, if_neg dotted]
  apply construct_eq
  rw [List.mem_append, List.mem_cons, not_or, not_or]
  exact ⟨terminated_removeExtension terminated, by decide, isPart.terminated⟩

/-- What a part is put behind, when it takes the place of an extension. -/
theorem replaced_of_removed (ordinary : ¬isEmptyOrSpecialCase (baseName path))
    {front name : StringType} (leads : Leads front) (plain : kSeparator ∉ name)
    (removed : removeExtension path = front ++ name) {part : StringType} (isPart : IsPart part) :
    extension (replaceExtension path (kExtensionSeparator :: part)) = kExtensionSeparator :: part ∨
      IsDouble (baseName (replaceExtension path (kExtensionSeparator :: part))) := by
  have base : baseName (replaceExtension path (kExtensionSeparator :: part)) = name ++ kExtensionSeparator :: part := by
    rw [replaceExtension_eq terminated ordinary isPart, removed, List.append_assoc]
    apply baseName_lead leads (List.append_ne_nil_of_right_ne_nil _ (List.cons_ne_nil _ _))
    rw [List.mem_append, List.mem_cons, not_or, not_or]
    exact ⟨plain, by decide, isPart.plain⟩
  rw [base]
  apply extension_name base plain isPart.undotted
  exact ordinary_of_mem isPart.nonempty isPart.undotted fun c member =>
    List.mem_append_right _ (List.mem_cons_of_mem _ member)

theorem baseName_inserted (ordinary : ¬isEmptyOrSpecialCase (baseName path))
    {front name : StringType} (leads : Leads front) (plain : kSeparator ∉ name ++ extension path)
    (removed : removeExtension path = front ++ name) {suffix : StringType} (isPart : IsPart suffix) :
    baseName (insertBeforeExtension path suffix) = name ++ suffix ++ extension path := by
  rw [List.mem_append, not_or] at plain
  rw [insertBeforeExtension_eq terminated ordinary isPart, removed, List.append_assoc front, List.append_assoc front]
  apply baseName_lead leads (List.append_ne_nil_of_left_ne_nil
    (List.append_ne_nil_of_right_ne_nil _ isPart.nonempty) _)
  rw [List.mem_append, List.mem_append, not_or, not_or]
  exact ⟨⟨plain.1, isPart.plain⟩, plain.2⟩

theorem insertBeforeExtension_nil : insertBeforeExtension path [] = path := by
  rw [insertBeforeExtension, if_pos rfl]
  exact construct_eq terminated

theorem laws_of_undotted (ordinary : ¬isEmptyOrSpecialCase (baseName path))
    (undotted : kExtensionSeparator ∉ baseName path) : ExtensionLaws path := by
  have none_ := extension_of_undotted undotted
  have kept : removeExtension path = path := if_pos none_
  obtain ⟨lead, name, split, leads, plain, nameUndotted⟩ := exists_lead undotted
  have removed : removeExtension path = lead ++ name := kept.trans split
  constructor
  · intro _
    rw [none_, kept, if_pos rfl, List.append_nil]
  · exact insertBeforeExtension_nil terminated
  · intro suffix isPart
    refine ⟨insertBeforeExtension_eq terminated ordinary isPart, .inl ?_⟩
    have whole : kSeparator ∉ name ++ extension path := by rwa [none_, List.append_nil]
    have inserted := baseName_inserted terminated ordinary leads whole removed isPart
    rw [none_, List.append_nil] at inserted
    rw [none_]
    apply extension_of_undotted
    rw [inserted, List.mem_append, not_or]
    exact ⟨nameUndotted, isPart.undotted⟩
  · exact fun part isPart => replaced_of_removed terminated ordinary leads plain removed isPart

end

section Dotted

variable {front base name last : StringType} {behind : Nat}

theorem laws_of_single (named : Named path front base behind) (split : base = name ++ kExtensionSeparator :: last)
    (undotted : kExtensionSeparator ∉ last) (ordinary : ¬isEmptyOrSpecialCase base)
    (terminated : kStringTerminator ∉ path) (single : ¬IsDouble base) : ExtensionLaws path := by
  have found := named.baseName
  have plain := named.plain
  have ordinaryBase : ¬isEmptyOrSpecialCase (baseName path) := found.symm ▸ ordinary
  have namePlain : kSeparator ∉ name := fun member => plain (split ▸ List.mem_append_left _ member)
  have removed := removeExtension_last named split undotted ordinary terminated (.inl single)
  have ext : extension path = kExtensionSeparator :: last :=
    (extension_name (found.trans split) namePlain undotted (split ▸ ordinary)).resolve_right (split ▸ single)
  constructor
  · intro _
    rw [ext, removed, named.strip, split, List.append_assoc]
    exact (if_neg (List.cons_ne_nil _ _)).symm
  · exact insertBeforeExtension_nil terminated
  · intro suffix isPart
    refine ⟨insertBeforeExtension_eq terminated ordinaryBase isPart, ?_⟩
    have whole : kSeparator ∉ name ++ extension path := ext ▸ split ▸ plain
    have inserted := baseName_inserted terminated ordinaryBase named.leads whole removed isPart
    rw [ext] at inserted ⊢
    have suffixed : kSeparator ∉ name ++ suffix := by
      rw [List.mem_append, not_or]
      exact ⟨namePlain, isPart.plain⟩
    have some_ : ¬isEmptyOrSpecialCase (name ++ suffix ++ kExtensionSeparator :: last) :=
      ordinary_of_mem isPart.nonempty isPart.undotted fun c member =>
        List.mem_append_left _ (List.mem_append_right _ member)
    rw [inserted, found]
    exact (extension_name inserted suffixed undotted some_).imp_right fun double => ⟨double, single⟩
  · exact fun part isPart => replaced_of_removed terminated ordinaryBase named.leads namePlain removed isPart

theorem laws_of_double {first : StringType} (named : Named path front base behind)
    (split : base = name ++ kExtensionSeparator :: (first ++ kExtensionSeparator :: last))
    (firstUndotted : kExtensionSeparator ∉ first) (undotted : kExtensionSeparator ∉ last)
    (recognised : Recognised first last) (ordinary : ¬isEmptyOrSpecialCase base)
    (terminated : kStringTerminator ∉ path) : ExtensionLaws path := by
  have found := named.baseName
  have plain := named.plain
  have ordinaryBase : ¬isEmptyOrSpecialCase (baseName path) := found.symm ▸ ordinary
  rw [split, List.mem_append, List.mem_cons, List.mem_append, List.mem_cons, not_or, not_or, not_or, not_or] at plain
  obtain ⟨namePlain, -, firstPlain, -, lastPlain⟩ := plain
  have ext : extension path = kExtensionSeparator :: (first ++ kExtensionSeparator :: last) :=
    extension_double (found.trans split) namePlain firstPlain firstUndotted undotted recognised
  have extPlain : kSeparator ∉ extension path := by
    rw [ext, List.mem_cons, List.mem_append, List.mem_cons, not_or, not_or, not_or]
    exact ⟨by decide, firstPlain, by decide, lastPlain⟩
  have double : IsDouble base := ⟨name, first, last, split, firstUndotted, undotted, recognised⟩
  -- behind the name, separators hide the first part of the extension from the search
  obtain ⟨rest, removed, restPlain, whole⟩ : ∃ rest, removeExtension path = front ++ rest ∧ kSeparator ∉ rest ∧
      (behind = 0 → rest = name) := by
    cases behind with
    | zero =>
      exact ⟨name, removeExtension_double named split firstUndotted undotted recognised ordinary terminated, namePlain,
        fun _ => rfl⟩
    | succ behind =>
      have longer : base = name ++ kExtensionSeparator :: first ++ kExtensionSeparator :: last := by
        rw [split, List.append_assoc, List.cons_append]
      refine ⟨name ++ kExtensionSeparator :: first,
        removeExtension_last named longer undotted ordinary terminated (.inr (Nat.succ_ne_zero behind)), ?_,
        fun none_ => absurd none_ (Nat.succ_ne_zero behind)⟩
      rw [List.mem_append, List.mem_cons, not_or, not_or]
      exact ⟨namePlain, by decide, firstPlain⟩
  constructor
  · intro bare
    have stripped := bare.resolve_right (not_not.mpr (found.symm ▸ double))
    have none_ : behind = 0 := by
      have lengths := congrArg List.length (named.split.symm.trans (stripped.symm.trans named.strip))
      rw [List.length_append, List.length_replicate] at lengths
      omega
    rw [ext, removed, whole none_, named.strip, split, List.append_assoc]
    exact (if_neg (List.cons_ne_nil _ _)).symm
  · exact insertBeforeExtension_nil terminated
  · intro suffix isPart
    refine ⟨insertBeforeExtension_eq terminated ordinaryBase isPart, .inl ?_⟩
    have joined : kSeparator ∉ rest ++ extension path := by
      rw [List.mem_append, not_or]
      exact ⟨restPlain, extPlain⟩
    have inserted := baseName_inserted terminated ordinaryBase named.leads joined removed isPart
    have suffixed : kSeparator ∉ rest ++ suffix := by
      rw [List.mem_append, not_or]
      exact ⟨restPlain, isPart.plain⟩
    rw [ext] at inserted ⊢
    exact extension_double inserted suffixed firstPlain firstUndotted undotted recognised
  · exact fun part isPart => replaced_of_removed terminated ordinaryBase named.leads restPlain removed isPart

end Dotted

end Laws

/-- Extensions of a path with an ordinary base name. -/
theorem extension_laws (path : Path) (ordinary : ¬isEmptyOrSpecialCase (baseName path.path_)) :
    ExtensionLaws path.path_ := by
  by_cases dotted : kExtensionSeparator ∈ baseName path.path_
  · cases row_or_named path.path_ with
    | inl same =>
      obtain ⟨n, same⟩ := same
      rw [same, baseName_row] at dotted
      exact absurd dotted (undotted_rootOf n)
    | inr named =>
      obtain ⟨front, base, behind, named⟩ := named
      rw [named.baseName] at dotted ordinary
      by_cases double : IsDouble base
      · obtain ⟨name, first, last, split, firstUndotted, undotted, recognised⟩ := double
        exact laws_of_double named split firstUndotted undotted recognised ordinary path.terminated
      · obtain ⟨name, last, split, undotted⟩ := exists_last_dot dotted
        exact laws_of_single named split undotted ordinary path.terminated double
  · exact laws_of_undotted path.terminated ordinary dotted

/-- `a.tar.gz`, before whose extension a suffix is put. -/
theorem extension_laws_tar : ExtensionLaws [0x61, 0x2e, 0x74, 0x61, 0x72, 0x2e, 0x67, 0x7a] :=
  extension_laws (.new [0x61, 0x2e, 0x74, 0x61, 0x72, 0x2e, 0x67, 0x7a]) (by decide)

/-- `a/` is left as it is. -/
theorem not_spells_stripped :
    ¬∀ path : Path, ¬isEmptyOrSpecialCase (baseName path.path_) →
      removeExtension path.path_ ++ extension path.path_ = stripTrailingSeparatorsInternal path.path_ := by
  intro always
  have same := always (.new [0x61, 0x2f]) (by decide)
  have different : ¬removeExtension (Path.new [0x61, 0x2f]).path_ ++ extension (Path.new [0x61, 0x2f]).path_ =
      stripTrailingSeparatorsInternal (Path.new [0x61, 0x2f]).path_ := by decide
  exact different same

end Libchrome.Base.FilePath
