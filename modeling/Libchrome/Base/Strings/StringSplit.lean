import Libchrome.Base.Strings.CollapseWhitespace
import Libchrome.Base.Strings.StringPiece
import Libchrome.Library.Components

/-! `TrimString` and `JoinString` (`string_util.cc`), and the splitting of strings (`string_split.cc`). -/

namespace Libchrome.Base.Strings
open Library.Collapsing Library.Searching

/-! ### Instances of the string templates -/

/-- What the templates use of a string type: its searches for characters of a set, and its whitespace. -/
structure StringType (α : Type) where
  findFirstOf : BasicStringPiece α → BasicStringPiece α → Nat → Option Nat
  findFirstNotOf : BasicStringPiece α → BasicStringPiece α → Nat → Nat
  findLastNotOf : BasicStringPiece α → BasicStringPiece α → Nat → Nat
  whitespace : BasicStringPiece α

def kWhitespaceASCII : List (BitVec 8) := [0x09, 0x0A, 0x0B, 0x0C, 0x0D, 0x20]

def kWhitespaceUTF16 : List (BitVec 16) := kWhitespaceWide.map (BitVec.ofInt 16)

/-- The templates for `std::string`. -/
def stdString : StringType (BitVec 8) where
  findFirstOf self s pos := some (findFirstOf8 self s pos)
  findFirstNotOf := findFirstNotOf8
  findLastNotOf := findLastNotOf8
  whitespace := ofString kWhitespaceASCII (by decide)

/-- The templates for `string16`. -/
def string16 : StringType (BitVec 16) where
  findFirstOf := findFirstOf16
  findFirstNotOf := findFirstNotOf16
  findLastNotOf := findLastNotOf16
  whitespace := ofString kWhitespaceUTF16 (by decide)

section Templates
variable {α β : Type} [DecidableEq α] (str : StringType α)

/-! ### Trimming -/

/-- `TrimPositions`, as its two bits. -/
structure TrimPositions where
  leading : Bool
  trailing : Bool

def trimAll : TrimPositions := ⟨true, true⟩

/-- The sum of two `size_t`. -/
def sizeAdd (a b : Nat) : Nat := (a + b) % 2 ^ 64

/-- The difference of two `size_t`. -/
def sizeSub (a b : Nat) : Nat := (a + 2 ^ 64 - b) % 2 ^ 64

/-- `TrimStringPieceT`. -/
def trimStringPieceT (input trimChars : BasicStringPiece α) (positions : TrimPositions) : BasicStringPiece α :=
  let begin_ := if positions.leading then str.findFirstNotOf input trimChars 0 else 0
  let end_ := if positions.trailing then sizeAdd (str.findLastNotOf input trimChars npos) 1 else input.size
  substrT input begin_ (sizeSub end_ begin_)

/-! ### Splitting -/

inductive WhitespaceHandling
  | keepWhitespace
  | trimWhitespace
  deriving DecidableEq

inductive SplitResult
  | splitWantAll
  | splitWantNonempty
  deriving DecidableEq

/-- What is pushed to the result for a piece. -/
def pushPiece (whitespace : WhitespaceHandling) (resultType : SplitResult) (convert : BasicStringPiece α → β)
    (piece : BasicStringPiece α) : List β :=
  let piece := if whitespace = .trimWhitespace then trimStringPieceT str piece str.whitespace trimAll else piece
  if resultType = .splitWantAll || !piece.empty then [convert piece] else []

variable (whitespace : WhitespaceHandling) (resultType : SplitResult) (convert : BasicStringPiece α → β)

/-- The loop of `SplitStringT`; none when it does not end within `fuel` rounds, or when a search is undefined. -/
def splitLoop (input : BasicStringPiece α) (findFirstOf : Nat → Option Nat) : Nat → Nat → Option (List β)
  | 0, _ => none
  | fuel + 1, start =>
    if start = npos then some []
    else
      (findFirstOf start).bind fun end_ =>
        let piece := if end_ = npos then substrT input start npos else substrT input start (end_ - start)
        let start := if end_ = npos then npos else end_ + 1
        (splitLoop input findFirstOf fuel start).map (pushPiece str whitespace resultType convert piece ++ ·)

/-- `SplitStringT`, with the search for its delimiter. -/
def splitStringT (input : BasicStringPiece α) (findFirstOf : Nat → Option Nat) : Option (List β) :=
  if input.empty then some []
  else splitLoop str whitespace resultType convert input findFirstOf (input.size + 2) 0

/-- The body of `SplitString` and `SplitStringPiece`, which take a single separator as a character. -/
def splitWith (input separators : BasicStringPiece α) : Option (List β) :=
  match separators.chars with
  | [c] => splitStringT str whitespace resultType convert input fun pos => some (findCharT input c pos)
  | _ => splitStringT str whitespace resultType convert input (str.findFirstOf input separators)

/-- `SplitString`. -/
def splitString (input separators : BasicStringPiece α) : Option (List (List α)) :=
  splitWith str whitespace resultType BasicStringPiece.chars input separators

/-- `SplitStringPiece`. -/
def splitStringPiece (input separators : BasicStringPiece α) : Option (List (BasicStringPiece α)) :=
  splitWith str whitespace resultType id input separators

/-- The loop of `SplitStringUsingSubstrT`; none when it does not end within `fuel` rounds. -/
def splitUsingSubstrLoop (input delimiter : BasicStringPiece α) : Nat → Nat → Option (List β)
  | 0, _ => none
  | fuel + 1, beginIndex =>
    let endIndex := findT input delimiter beginIndex
    let term :=
      if endIndex = npos then substrT input beginIndex npos else substrT input beginIndex (endIndex - beginIndex)
    if endIndex = npos then some (pushPiece str whitespace resultType convert term)
    else
      (splitUsingSubstrLoop input delimiter fuel (endIndex + delimiter.size)).map
        (pushPiece str whitespace resultType convert term ++ ·)

/-- `SplitStringUsingSubstr` ends with this result. -/
def SplitsUsingSubstr (input delimiter : BasicStringPiece α) (result : List (List α)) : Prop :=
  ∃ fuel,
    splitUsingSubstrLoop str .trimWhitespace .splitWantAll BasicStringPiece.chars input delimiter fuel 0 = some result

end Templates

/-- `JoinStringT`. -/
def joinStringT {α : Type} (parts : List (List α)) (sep : List α) : List α :=
  match parts with
  | [] => []
  | first :: rest => rest.foldl (fun result part => result ++ sep ++ part) first

/-! ### Trimming -/

/-- The searches of a string type are those of `std::basic_string`, up to the end of the text. -/
structure StringType.Lawful {α : Type} [DecidableEq α] (str : StringType α) : Prop where
  findFirstOf : ∀ input s pos, pos ≤ input.size →
    str.findFirstOf input s pos = some (stdFindFirstOf input.chars s.chars pos)
  findFirstNotOf : ∀ input s, str.findFirstNotOf input s 0 = stdFindFirstNotOf input.chars s.chars 0
  findLastNotOf : ∀ input s pos, str.findLastNotOf input s pos = stdFindLastNotOf input.chars s.chars pos

theorem stdString_lawful : stdString.Lawful where
  findFirstOf input s pos _ := congrArg some (findFirstOf8_eq input s pos)
  findFirstNotOf input s := findFirstNotOf8_eq input s 0 (.inr (.inr rfl))
  findLastNotOf input s pos := findLastNotOf8_eq input s pos

theorem string16_lawful : string16.Lawful where
  findFirstOf input s pos inside := findFirstOf16_eq input s pos inside
  findFirstNotOf input s := findFirstNotOf16_eq input s 0
  findLastNotOf input s pos := findLastNotOf16_eq input s pos

theorem rdropWhile_append_cons {α : Type} {blank : α → Bool} (front : List α) {c : α} {back : List α}
    (solid : blank c = false) (blanks : ∀ d ∈ back, blank d = true) :
    (front ++ c :: back).rdropWhile blank = front ++ [c] := by
  induction back using List.reverseRecOn with
  | nil => exact List.rdropWhile_concat_neg _ _ _ (Bool.eq_false_iff.mp solid)
  | append_singleton rest last ih =>
    rw [← List.cons_append, ← List.append_assoc, List.rdropWhile_concat_pos _ _ _ (blanks last (by simp))]
    exact ih fun d member => blanks d (List.mem_append_left _ member)

/-- Between the first and the last character that is not blank is the text without the blanks at its ends. -/
theorem trimEnds_eq {α : Type} {blank : α → Bool} {text front back front' back' : List α} {c d : α}
    (first : text = front ++ c :: back) (last : text = front' ++ d :: back') (blanks : ∀ e ∈ front, blank e = true)
    (blanks' : ∀ e ∈ back', blank e = true) (solid : blank c = false) (solid' : blank d = false) :
    trimEnds blank text = (text.drop front.length).take (front'.length + 1 - front.length) ∧
      front.length ≤ front'.length := by
  have ordered : front.length ≤ front'.length := by
    by_contra later
    rw [not_le] at later
    have here : text[front'.length]? = some d := by
      rw [last, List.getElem?_append_right le_rfl, Nat.sub_self, List.getElem?_cons_zero]
    rw [first, List.getElem?_append_left later] at here
    rw [blanks d (List.mem_of_getElem? here)] at solid'
    cases solid'
  refine ⟨?_, ordered⟩
  have dropped : text.dropWhile blank = text.drop front.length := by
    rw [first, List.drop_left, List.dropWhile_append_of_pos blanks,
      List.dropWhile_cons_of_neg (Bool.eq_false_iff.mp solid)]
  have rest : text.drop front.length = front'.drop front.length ++ d :: back' := by
    rw [last, List.drop_append_of_le_length ordered]
  have short : (front'.drop front.length ++ [d]).length = front'.length + 1 - front.length := by
    rw [List.length_append, List.length_drop, List.length_singleton]
    omega
  rw [trimEnds, dropped, rest, rdropWhile_append_cons _ solid' blanks', ← short,
    List.append_cons (front'.drop front.length) d back', List.take_left]

section Splitting
variable {α : Type} [DecidableEq α] {str : StringType α} (lawful : str.Lawful)
include lawful

theorem chars_trimStringPieceT (input trimChars : BasicStringPiece α) :
    (trimStringPieceT str input trimChars trimAll).chars =
      trimEnds (fun c => trimChars.chars.contains c) input.chars := by
  have fits := input.fits
  have inside := input.inside
  have size := input.length_chars
  have short : input.size < npos := by
    rw [npos, BasicStringPiece.size]
    omega
  rw [trimStringPieceT, chars_substrT, trimAll]
  dsimp only
  rw [if_pos rfl, if_pos rfl, lawful.findFirstNotOf, lawful.findLastNotOf, stdFindFirstNotOf, stdFindLastNotOf]
  rcases firstPassing_cases 0 (fun c => !trimChars.chars.contains c) (Nat.zero_le input.chars.length) with
    ⟨noneFirst, blanks⟩ | ⟨front, c, back, first, blanks, solid, found⟩
  · rw [List.drop_zero] at blanks
    have all : ∀ c ∈ input.chars, trimChars.chars.contains c = true :=
      fun c member => (Bool.not_eq_false' _).mp (blanks c member)
    rw [noneFirst, List.drop_eq_nil_of_le (by omega), List.take_nil, trimEnds, List.dropWhile_eq_nil_iff.mpr all,
      List.rdropWhile_nil]
  · rw [List.drop_zero] at first
    rcases lastPassing_cases (fun c => !trimChars.chars.contains c) (size.trans_le short.le) with
      ⟨_, fails⟩ | ⟨front', d, back', last, blanks', solid', found'⟩
    · have member : c ∈ input.chars := by
        rw [first]
        exact List.mem_append_right _ List.mem_cons_self
      rw [fails c member] at solid
      cases solid
    · have inFront (e : α) (member : e ∈ front) := (Bool.not_eq_false' _).mp (blanks e member)
      have inBack (e : α) (member : e ∈ back') := (Bool.not_eq_false' _).mp (blanks' e member)
      obtain ⟨trimmed, ordered⟩ :=
        trimEnds_eq first last inFront inBack ((Bool.not_eq_true' _).mp solid) ((Bool.not_eq_true' _).mp solid')
      have lengths := congrArg List.length last
      rw [List.length_append, List.length_cons, size] at lengths
      rw [npos] at short
      have sum : sizeAdd front'.length 1 = front'.length + 1 := Nat.mod_eq_of_lt (by omega)
      have difference : sizeSub (front'.length + 1) front.length = front'.length + 1 - front.length := by
        rw [sizeSub, Nat.add_comm (front'.length + 1), Nat.add_sub_assoc (by omega), Nat.add_mod_left]
        exact Nat.mod_eq_of_lt (by omega)
      rw [found, found', Nat.zero_add, sum, difference, trimmed]

variable (whitespace : WhitespaceHandling) (resultType : SplitResult)

/-- A piece trimmed of the whitespace of its string type, where that is asked for. -/
def trimPiece (str : StringType α) (whitespace : WhitespaceHandling) (piece : List α) : List α :=
  if whitespace = .trimWhitespace then trimEnds (fun c => str.whitespace.chars.contains c) piece else piece

/-- The pieces that are wanted. -/
def keepWanted (resultType : SplitResult) (pieces : List (List α)) : List (List α) :=
  if resultType = .splitWantAll then pieces else pieces.filter fun piece => !piece.isEmpty

theorem pushPiece_eq (piece : BasicStringPiece α) :
    pushPiece str whitespace resultType BasicStringPiece.chars piece =
      keepWanted resultType [trimPiece str whitespace piece.chars] := by
  have handled (piece' : BasicStringPiece α) :
      (if (resultType = .splitWantAll || !piece'.empty) = true then [piece'.chars] else []) =
        keepWanted resultType [piece'.chars] := by
    rw [keepWanted]
    by_cases all : resultType = .splitWantAll
    · rw [if_pos all, if_pos (by rw [decide_eq_true all, Bool.true_or])]
    · have isEmpty : piece'.empty = piece'.chars.isEmpty := by
        rw [BasicStringPiece.empty, Bool.eq_iff_iff, List.isEmpty_iff, decide_eq_true_iff, piece'.chars_eq_nil_iff]
        rfl
      rw [if_neg all, decide_eq_false all, Bool.false_or, isEmpty, List.filter_singleton]
      cases piece'.chars.isEmpty <;> rfl
  rw [pushPiece, trimPiece, handled]
  congr 2
  split
  next => exact chars_trimStringPieceT lawful piece str.whitespace
  next => rfl

omit lawful [DecidableEq α] in
theorem keepWanted_cons (piece : List α) (pieces : List (List α)) :
    keepWanted resultType (piece :: pieces) = keepWanted resultType [piece] ++ keepWanted resultType pieces := by
  rw [keepWanted, keepWanted, keepWanted]
  split
  next => rfl
  next => rw [← List.filter_append, List.singleton_append]

omit lawful [DecidableEq α] in
theorem pushPiece_keep (piece : BasicStringPiece α) :
    pushPiece str .keepWhitespace .splitWantAll BasicStringPiece.chars piece = [piece.chars] := rfl

theorem splitLoop_handled (input : BasicStringPiece α) (findFirstOf : Nat → Option Nat) (fuel start : Nat) :
    splitLoop str whitespace resultType BasicStringPiece.chars input findFirstOf fuel start =
      (splitLoop str .keepWhitespace .splitWantAll BasicStringPiece.chars input findFirstOf fuel start).map
        fun pieces => keepWanted resultType (pieces.map (trimPiece str whitespace)) := by
  have none : keepWanted resultType ([] : List (List α)) = [] := by
    rw [keepWanted]
    split <;> rfl
  induction fuel generalizing start with
  | zero => rfl
  | succ fuel ih =>
    rw [splitLoop, splitLoop]
    split
    next => rw [Option.map_some, List.map_nil, none]
    next =>
      cases findFirstOf start with
      | none => rfl
      | some end_ =>
        simp only [Option.bind_some]
        rw [ih, pushPiece_eq lawful, pushPiece_keep, Option.map_map, Option.map_map]
        congr 1
        funext pieces
        rw [Function.comp_apply, Function.comp_apply, List.singleton_append, List.map_cons, ← keepWanted_cons]

omit lawful [DecidableEq α] in
theorem splitLoop_views (input : BasicStringPiece α) (findFirstOf : Nat → Option Nat) (fuel start : Nat) :
    (splitLoop str whitespace resultType id input findFirstOf fuel start).map (List.map BasicStringPiece.chars) =
      splitLoop str whitespace resultType BasicStringPiece.chars input findFirstOf fuel start := by
  have pushed (piece : BasicStringPiece α) : (pushPiece str whitespace resultType id piece).map BasicStringPiece.chars =
      pushPiece str whitespace resultType BasicStringPiece.chars piece := by
    rw [pushPiece, pushPiece]
    split_ifs <;> rfl
  induction fuel generalizing start with
  | zero => rfl
  | succ fuel ih =>
    rw [splitLoop, splitLoop]
    split
    next => rfl
    next =>
      cases findFirstOf start with
      | none => rfl
      | some end_ =>
        simp only [Option.bind_some]
        rw [← ih, Option.map_map, Option.map_map]
        congr 1
        funext pieces
        rw [Function.comp_apply, Function.comp_apply, List.map_append, pushed]

omit lawful in
theorem splitLoop_keep {input : BasicStringPiece α} {findFirstOf : Nat → Option Nat} {separator : α → Bool}
    (finds : ∀ pos ≤ input.size, findFirstOf pos = some (firstPassing separator input.chars pos)) (fuel start : Nat)
    (inside : start ≤ input.size) (enough : input.size - start + 2 ≤ fuel) :
    splitLoop str .keepWhitespace .splitWantAll BasicStringPiece.chars input findFirstOf fuel start =
      some ((input.chars.drop start).splitOnP separator) := by
  have size := input.length_chars
  have short : input.size < npos := by
    have fits := input.fits
    have within := input.inside
    rw [npos, BasicStringPiece.size]
    omega
  induction fuel generalizing start with
  | zero => omega
  | succ fuel ih =>
    rw [splitLoop, if_neg (inside.trans_lt short).ne, finds start inside, Option.bind_some]
    dsimp only
    rw [pushPiece_keep]
    rcases firstPassing_cases start separator (inside.trans size.ge) with
      ⟨none, fails⟩ | ⟨front, c, back, rest, fails, passes, found⟩
    · obtain ⟨more, rfl⟩ : ∃ more, fuel = more + 1 := ⟨fuel - 1, by omega⟩
      rw [if_pos none, if_pos none, splitLoop, if_pos rfl, Option.map_some, chars_substrT, List.append_nil,
        List.take_of_length_le (by rw [List.length_drop, size]; omega),
        List.splitOnP_eq_singleton fails]
    · have lengths := congrArg List.length rest
      rw [List.length_drop, List.length_append, List.length_cons, size] at lengths
      have further : ¬ firstPassing separator input.chars start = npos := by
        rw [found]
        omega
      have next : input.chars.drop (start + front.length + 1) = back := by
        rw [Nat.add_assoc, ← List.drop_drop, rest, List.append_cons]
        exact List.drop_left' (by rw [List.length_append]; rfl)
      rw [if_neg further, if_neg further, found, ih _ (by omega) (by omega), Option.map_some, chars_substrT,
        Nat.add_sub_cancel_left, next, rest, List.take_left, List.splitOnP_append_cons_of_forall_mem fails c passes]
      rfl

/-- A single separator and a set of them are searched for in the same way. -/
theorem splitWith_searches (input separators : BasicStringPiece α) :
    ∃ findFirstOf : Nat → Option Nat,
      (∀ pos ≤ input.size, findFirstOf pos =
        some (firstPassing (fun c => separators.chars.contains c) input.chars pos)) ∧
      ∀ (β : Type) (whitespace : WhitespaceHandling) (resultType : SplitResult) (convert : BasicStringPiece α → β),
        splitWith str whitespace resultType convert input separators =
          splitStringT str whitespace resultType convert input findFirstOf := by
  rcases chars : separators.chars with _ | ⟨c, _ | ⟨d, rest⟩⟩
  · refine ⟨str.findFirstOf input separators, fun pos inside => ?_, fun β whitespace resultType convert => ?_⟩
    · rw [lawful.findFirstOf input separators pos inside, stdFindFirstOf, chars]
    · rw [splitWith, chars]
  · refine ⟨fun pos => some (findCharT input c pos), fun pos _ => ?_, fun β whitespace resultType convert => ?_⟩
    · dsimp only
      rw [findCharT_eq, stdFind_singleton]
      congr 2
      funext d
      rw [List.contains_cons, List.contains_nil, Bool.or_false]
      rfl
    · rw [splitWith, chars]
  · refine ⟨str.findFirstOf input separators, fun pos inside => ?_, fun β whitespace resultType convert => ?_⟩
    · rw [lawful.findFirstOf input separators pos inside, stdFindFirstOf, chars]
    · rw [splitWith, chars]

/-- All ways to split a text end, and find the same pieces. -/
theorem splitStringT_eq {input : BasicStringPiece α} {findFirstOf : Nat → Option Nat} {separator : α → Bool}
    (finds : ∀ pos ≤ input.size, findFirstOf pos = some (firstPassing separator input.chars pos)) :
    splitStringT str whitespace resultType BasicStringPiece.chars input findFirstOf =
      some (keepWanted resultType
        ((if input.chars = [] then [] else input.chars.splitOnP separator).map (trimPiece str whitespace))) := by
  rw [splitStringT]
  by_cases empty : input.chars = []
  · have isEmpty : input.empty = true := by
      rw [BasicStringPiece.empty, decide_eq_true_iff]
      exact (input.chars_eq_nil_iff).mp empty
    rw [if_pos isEmpty, if_pos empty, List.map_nil, keepWanted]
    split <;> rfl
  · have isNotEmpty : ¬ input.empty = true := by
      rw [BasicStringPiece.empty, decide_eq_true_iff]
      exact fun none => empty ((input.chars_eq_nil_iff).mpr none)
    rw [if_neg isNotEmpty, if_neg empty, splitLoop_handled lawful,
      splitLoop_keep finds (input.size + 2) 0 (Nat.zero_le _) le_rfl, Option.map_some, List.drop_zero]

end Splitting

/-! ### Joining -/

theorem joinStringT_eq {α : Type} (parts : List (List α)) (sep : List α) :
    joinStringT parts sep = sep.intercalate parts := by
  have longer (front first : List α) (rest : List (List α)) :
      sep.intercalate ((front ++ first) :: rest) = front ++ sep.intercalate (first :: rest) := by
    cases rest with
    | nil => rw [List.intercalate_singleton, List.intercalate_singleton]
    | cons second rest =>
      rw [List.intercalate_cons_cons, List.intercalate_cons_cons, List.append_assoc, List.append_assoc, List.append_assoc]
  have folds (rest : List (List α)) (result : List α) :
      rest.foldl (fun result part => result ++ sep ++ part) result = sep.intercalate (result :: rest) := by
    induction rest generalizing result with
    | nil => exact List.intercalate_singleton.symm
    | cons part rest ih => rw [List.foldl_cons, ih, List.intercalate_cons_cons, longer]
  cases parts with
  | nil => rfl
  | cons first rest => exact folds rest first

/-! ### Splitting at a substring -/

section UsingSubstr
variable {α : Type} [DecidableEq α] {str : StringType α}

theorem splitUsingSubstrLoop_handled (lawful : str.Lawful) (whitespace : WhitespaceHandling) (resultType : SplitResult)
    (input delimiter : BasicStringPiece α) (fuel beginIndex : Nat) :
    splitUsingSubstrLoop str whitespace resultType BasicStringPiece.chars input delimiter fuel beginIndex =
      (splitUsingSubstrLoop str .keepWhitespace .splitWantAll BasicStringPiece.chars input delimiter fuel beginIndex).map
        fun terms => keepWanted resultType (terms.map (trimPiece str whitespace)) := by
  induction fuel generalizing beginIndex with
  | zero => rfl
  | succ fuel ih =>
    rw [splitUsingSubstrLoop, splitUsingSubstrLoop, pushPiece_eq lawful, pushPiece_keep]
    split
    next => rw [Option.map_some, List.map_singleton]
    next =>
      rw [ih, Option.map_map, Option.map_map]
      congr 1
      funext terms
      rw [Function.comp_apply, Function.comp_apply, List.singleton_append, List.map_cons, ← keepWanted_cons]

theorem splitUsingSubstrLoop_never_ends {β : Type} {whitespace : WhitespaceHandling} {resultType : SplitResult}
    {convert : BasicStringPiece α → β} (input : BasicStringPiece α) {delimiter : BasicStringPiece α}
    (empty : delimiter.size = 0) (fuel : Nat) :
    splitUsingSubstrLoop str whitespace resultType convert input delimiter fuel 0 = none := by
  have here : findT input delimiter 0 = 0 := by
    have none : delimiter.chars = [] := delimiter.chars_eq_nil_iff.mpr empty
    rw [findT, if_neg (Nat.not_lt_zero _), stdSearch, if_pos none]
    dsimp only
    rw [empty, Nat.add_zero, if_pos (Nat.zero_le _)]
  have further : ¬ 0 = npos := by decide
  induction fuel with
  | zero => rfl
  | succ fuel ih =>
    rw [splitUsingSubstrLoop, here, if_neg further, empty, Nat.add_zero, ih, Option.map_none]

theorem not_infix_front {text s front back : List α} (some_ : s ≠ []) (rest : text = front ++ (s ++ back))
    (first : ∀ i < front.length, matchesAt text s i = false) : ¬ s <:+: front := by
  intro within
  obtain ⟨i, room, found⟩ := matchesAt_of_infix within
  have positive := List.length_pos_iff.mpr some_
  have early := first i (by omega)
  rw [rest, matchesAt_append_right found] at early
  cases early

/-- The terms of the rest of the text have no occurrence of the delimiter, and it joins them to that rest. -/
theorem splitUsingSubstrLoop_keep {input delimiter : BasicStringPiece α} (some_ : delimiter.chars ≠ [])
    (fuel beginIndex : Nat) (inside : beginIndex ≤ input.size) (enough : input.size - beginIndex < fuel) :
    ∃ term terms, splitUsingSubstrLoop str .keepWhitespace .splitWantAll BasicStringPiece.chars input delimiter fuel
        beginIndex = some (term :: terms) ∧
      delimiter.chars.intercalate (term :: terms) = input.chars.drop beginIndex ∧
      ∀ piece ∈ term :: terms, ¬ delimiter.chars <:+: piece := by
  have size := input.length_chars
  have length := delimiter.length_chars
  have positive := List.length_pos_iff.mpr some_
  have short : input.size < npos := by
    have fits := input.fits
    have within := input.inside
    rw [npos, BasicStringPiece.size]
    omega
  induction fuel generalizing beginIndex with
  | zero => omega
  | succ fuel ih =>
    rw [splitUsingSubstrLoop, pushPiece_keep, findT_eq]
    rcases stdFind_cases some_ beginIndex with ⟨none, absent⟩ | ⟨front, back, rest, found, first⟩
    · refine ⟨input.chars.drop beginIndex, [], ?_, List.intercalate_singleton, fun piece member => ?_⟩
      · rw [if_pos none, if_pos none, chars_substrT, List.take_of_length_le (by rw [List.length_drop]; omega)]
      · rw [List.mem_singleton.mp member]
        exact absent
    · have lengths := congrArg List.length rest
      rw [List.length_drop, List.length_append, List.length_append, size, length] at lengths
      have further : ¬ stdFind input.chars delimiter.chars beginIndex = npos := by
        rw [found]
        omega
      have next : input.chars.drop (beginIndex + front.length + delimiter.size) = back := by
        rw [Nat.add_assoc, ← List.drop_drop, rest, ← List.append_assoc]
        exact List.drop_left' (by rw [List.length_append, length])
      obtain ⟨term, terms, run, joined, clean⟩ := ih (beginIndex + front.length + delimiter.size) (by omega) (by omega)
      refine ⟨front, term :: terms, ?_, ?_, fun piece member => ?_⟩
      · rw [if_neg further, if_neg further, found, run, chars_substrT, Nat.add_sub_cancel_left, rest, List.take_left]
        rfl
      · rw [List.intercalate_cons_cons, joined, next, rest, List.append_assoc]
      · rcases List.mem_cons.mp member with rfl | later
        · exact not_infix_front some_ rest first
        · exact clean piece later

/-- The split ends; joined with the delimiter, its terms are the input, and none of them has the delimiter within it.
`SplitStringUsingSubstr` trims these terms. -/
def SplitsBackUsingSubstr (str : StringType α) (input delimiter : BasicStringPiece α) : Prop :=
  ∃ terms,
    (∃ fuel,
      splitUsingSubstrLoop str .keepWhitespace .splitWantAll BasicStringPiece.chars input delimiter fuel 0 = some terms) ∧
      joinStringT terms delimiter.chars = input.chars ∧ (∀ term ∈ terms, ¬ delimiter.chars <:+: term) ∧
      SplitsUsingSubstr str input delimiter (terms.map (trimPiece str .trimWhitespace))

theorem not_splitsBack (input : BasicStringPiece α) {delimiter : BasicStringPiece α} (empty : delimiter.size = 0) :
    ¬ SplitsBackUsingSubstr str input delimiter := by
  rintro ⟨terms, ⟨fuel, run⟩, _⟩
  rw [splitUsingSubstrLoop_never_ends input empty fuel] at run
  cases run

theorem splitsBack_iff (lawful : str.Lawful) (input delimiter : BasicStringPiece α) :
    SplitsBackUsingSubstr str input delimiter ↔ delimiter.size ≠ 0 := by
  constructor
  · exact fun splits empty => not_splitsBack input empty splits
  · intro size
    have some_ : delimiter.chars ≠ [] := fun none => size (delimiter.chars_eq_nil_iff.mp none)
    obtain ⟨term, terms, run, joined, clean⟩ :=
      @splitUsingSubstrLoop_keep α _ str input delimiter some_ (input.size + 1) 0 (Nat.zero_le _) (Nat.lt_succ_self _)
    refine ⟨term :: terms, ⟨input.size + 1, run⟩, ?_, clean, input.size + 1, ?_⟩
    · rw [joinStringT_eq, joined, List.drop_zero]
    · rw [splitUsingSubstrLoop_handled lawful, run, Option.map_some, keepWanted, if_pos rfl]

end UsingSubstr

theorem splitStringUsingSubstr_iff (input delimiter : StringPiece) (input16 delimiter16 : StringPiece16) :
    (SplitsBackUsingSubstr stdString input delimiter ↔ delimiter.size ≠ 0) ∧
      (SplitsBackUsingSubstr string16 input16 delimiter16 ↔ delimiter16.size ≠ 0) :=
  ⟨splitsBack_iff stdString_lawful input delimiter, splitsBack_iff string16_lawful input16 delimiter16⟩

/-- The text `a`, split at an empty delimiter. -/
theorem emptyDelimiter_never_splits :
    ¬ SplitsBackUsingSubstr stdString (ofString [0x61] (by decide)) (ofString [] (by decide)) :=
  not_splitsBack _ rfl

/-! ### The laws -/

/-- Splitting at a character and joining are inverse, every way to split finds the same pieces, and views denote them. -/
structure SplitLaws {α : Type} [DecidableEq α] (str : StringType α) : Prop where
  inverse : ∀ (input separators : BasicStringPiece α) (c : α), input.chars ≠ [] → separators.chars = [c] →
    ∃ pieces, splitString str .keepWhitespace .splitWantAll input separators = some pieces ∧
      joinStringT pieces [c] = input.chars ∧ ∀ piece ∈ pieces, c ∉ piece
  handled : ∀ input separators : BasicStringPiece α,
    ∃ pieces, splitString str .keepWhitespace .splitWantAll input separators = some pieces ∧
      ∀ whitespace resultType, splitString str whitespace resultType input separators =
        some (keepWanted resultType (pieces.map (trimPiece str whitespace)))
  views : ∀ (input separators : BasicStringPiece α) whitespace resultType,
    (splitStringPiece str whitespace resultType input separators).map (List.map BasicStringPiece.chars) =
      splitString str whitespace resultType input separators

theorem splitLaws {α : Type} [DecidableEq α] {str : StringType α} (lawful : str.Lawful) : SplitLaws str := by
  have keeps (pieces : List (List α)) :
      keepWanted .splitWantAll (pieces.map (trimPiece str .keepWhitespace)) = pieces := List.map_id' pieces
  constructor
  · intro input separators c some_ only
    obtain ⟨findFirstOf, finds, same⟩ := splitWith_searches lawful input separators
    refine ⟨input.chars.splitOnP fun d => separators.chars.contains d, ?_, ?_, fun piece member inside => ?_⟩
    · rw [splitString, same, splitStringT_eq lawful _ _ finds, if_neg some_, keeps]
    · have equal : (fun d => separators.chars.contains d) = fun d => d == c := by
        funext d
        rw [only, List.contains_cons, List.contains_nil, Bool.or_false]
      rw [joinStringT_eq, equal]
      exact List.intercalate_splitOn c
    · have fails := Library.fails_of_mem_splitOnP member inside
      rw [only, List.contains_cons, BEq.rfl, Bool.true_or] at fails
      cases fails
  · intro input separators
    obtain ⟨findFirstOf, finds, same⟩ := splitWith_searches lawful input separators
    refine ⟨if input.chars = [] then [] else input.chars.splitOnP fun d => separators.chars.contains d, ?_,
      fun whitespace resultType => ?_⟩
    · rw [splitString, same, splitStringT_eq lawful _ _ finds, keeps]
    · rw [splitString, same, splitStringT_eq lawful _ _ finds]
  · intro input separators whitespace resultType
    obtain ⟨findFirstOf, _, same⟩ := splitWith_searches lawful input separators
    rw [splitStringPiece, splitString, same, same, splitStringT, splitStringT]
    split
    next => rfl
    next => exact splitLoop_views whitespace resultType input findFirstOf _ 0

theorem splitString_laws : SplitLaws stdString ∧ SplitLaws string16 :=
  ⟨splitLaws stdString_lawful, splitLaws string16_lawful⟩

end Libchrome.Base.Strings
