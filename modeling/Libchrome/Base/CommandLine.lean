import Libchrome.Base.Strings.ReplaceChars
import Libchrome.Base.Strings.StringSplit
import Libchrome.Base.Values.Dictionary

/-!
# Command lines

`CommandLine` (`command_line.cc`) on POSIX: parsing an argument vector into switches and arguments, and the
vector that it is rendered to.
-/

namespace Libchrome.Base
open Library Bytes Collapsing Searching
open Base.Strings (findLastNotOf kWhitespaceASCII trimEnds_eq)

local instance : LinearOrder (List Byte) := Values.keyOrder

/-- `switches_by_stringpiece_` points to a value of `switches_` by its key. -/
structure CommandLine where
  argv_ : List (List Byte)
  switches_ : OrderedMap (List Byte) (List Byte)
  switches_by_stringpiece_ : OrderedMap (List Byte) (List Byte)
  begin_args_ : Nat

namespace CommandLine

abbrev StringType := List Byte

def kSwitchTerminator : StringType := [0x2d, 0x2d]

def kSwitchValueSeparator : Byte := 0x3d

/-- `kSwitchPrefixes`: longer prefixes first. -/
def kSwitchPrefixes : List StringType := [[0x2d, 0x2d], [0x2d]]

def findFirstNotOf (text s : StringType) : Option Nat :=
  lowest (fun i => text[i]?.any fun c => !s.contains c) 0 text.length

/-- `TrimWhitespaceASCII` at both ends. -/
def trimWhitespaceASCII (input : StringType) : StringType :=
  match findFirstNotOf input kWhitespaceASCII, findLastNotOf input kWhitespaceASCII with
  | some first_good_char, some last_good_char => (input.drop first_good_char).take (last_good_char - first_good_char + 1)
  | _, _ => []

/-- The value of a `FilePath`, which ends at a NUL. -/
def filePath (path : StringType) : StringType := path.takeWhile (· ≠ 0)

def getSwitchPrefixLength (string : StringType) : Nat :=
  ((kSwitchPrefixes.find? fun prefix_ => string.take prefix_.length = prefix_).map List.length).getD 0

/-- `IsSwitch`, with the switch string and the switch value. -/
def isSwitch (string : StringType) : Option (StringType × StringType) :=
  let prefix_length := getSwitchPrefixLength string
  if prefix_length = 0 ∨ prefix_length = string.length then none
  else
    match string.findIdx? (· = kSwitchValueSeparator) with
    | none => some (string, [])
    | some equals_position => some (string.take equals_position, string.drop (equals_position + 1))

/-- The key of a switch: its string without the prefix. -/
def switchKey (switch_string : StringType) : StringType := switch_string.drop (getSwitchPrefixLength switch_string)

/-- The string of a switch, with a prefix if it has none. -/
def prefixed (switch_string : StringType) : StringType :=
  if getSwitchPrefixLength switch_string = 0 then kSwitchTerminator ++ switch_string else switch_string

/-- What a switch is rendered to. -/
def combinedSwitchString (switch_string value : StringType) : StringType :=
  if value ≠ [] then prefixed switch_string ++ kSwitchValueSeparator :: value else prefixed switch_string

def appendSwitchNative (cl : CommandLine) (switch_string value : StringType) : CommandLine where
  switches_ := cl.switches_.update (switchKey switch_string) fun _ => value
  switches_by_stringpiece_ := cl.switches_by_stringpiece_.update (switchKey switch_string) fun _ => switchKey switch_string
  argv_ := cl.argv_.take cl.begin_args_ ++ combinedSwitchString switch_string value :: cl.argv_.drop cl.begin_args_
  begin_args_ := cl.begin_args_ + 1

def appendArgNative (cl : CommandLine) (value : StringType) : CommandLine :=
  { cl with argv_ := cl.argv_ ++ [value] }

/-- The body of the loop of `AppendSwitchesAndArguments`. -/
def appendNext (state : Bool × CommandLine) (arg : StringType) : Bool × CommandLine :=
  let arg := trimWhitespaceASCII arg
  let parse_switches := state.1 && arg ≠ kSwitchTerminator
  match if parse_switches then isSwitch arg else none with
  | some (switch_string, switch_value) => (parse_switches, appendSwitchNative state.2 switch_string switch_value)
  | none => (parse_switches, appendArgNative state.2 arg)

def appendSwitchesAndArguments (cl : CommandLine) (argv : List StringType) : CommandLine :=
  ((argv.drop 1).foldl appendNext (true, cl)).2

def setProgram (cl : CommandLine) (program : StringType) : CommandLine :=
  { cl with argv_ := cl.argv_.set 0 (trimWhitespaceASCII program) }

def initFromArgv (argv : List StringType) : CommandLine :=
  let cl : CommandLine :=
    { argv_ := [[]]
      switches_ := .empty
      switches_by_stringpiece_ := .empty
      begin_args_ := 1 }
  appendSwitchesAndArguments (setProgram cl (argv.head?.elim [] filePath)) argv

/-- `GetArgs`: the first terminator is erased. -/
def getArgs (cl : CommandLine) : List StringType := (cl.argv_.drop cl.begin_args_).erase kSwitchTerminator

def hasSwitch (cl : CommandLine) (switch_string : StringType) : Bool :=
  (cl.switches_by_stringpiece_.find switch_string).isSome

def getSwitchValueNative (cl : CommandLine) (switch_string : StringType) : StringType :=
  match cl.switches_by_stringpiece_.find switch_string with
  | none => []
  | some key => (cl.switches_.find key).getD []

/-! ### Trimming -/

def isBlank (c : Byte) : Bool := kWhitespaceASCII.contains c

theorem isBlank_getElem {input : StringType} {i : Nat} (inside : i < input.length) :
    isBlank input[i] = !(input[i]?.any fun c => !kWhitespaceASCII.contains c) := by
  rw [List.getElem?_eq_getElem inside, Option.any_some, Bool.not_not, isBlank]

theorem trimWhitespaceASCII_eq (input : StringType) : trimWhitespaceASCII input = trimEnds isBlank input := by
  unfold trimWhitespaceASCII
  cases first : findFirstNotOf input kWhitespaceASCII with
  | none =>
    have blanks : ∀ c ∈ input, isBlank c = true := by
      intro c member
      obtain ⟨i, inside, rfl⟩ := List.getElem_of_mem member
      rw [isBlank_getElem inside, lowest_eq_none_iff.mp first i (Nat.zero_le i) (by omega)]
      rfl
    rw [trimEnds, List.dropWhile_eq_nil_iff.mpr blanks, List.rdropWhile_nil]
  | some i =>
    obtain ⟨_, inside, passes, before⟩ := lowest_eq_some_iff.mp first
    rw [Nat.zero_add] at inside
    cases last : findLastNotOf input kWhitespaceASCII with
    | none =>
      rw [highest_eq_none_iff.mp last i inside] at passes
      cases passes
    | some k =>
      obtain ⟨inside', passes', behind⟩ := highest_eq_some_iff.mp last
      have inFront : ∀ c ∈ input.take i, isBlank c = true := by
        intro c member
        obtain ⟨j, within, rfl⟩ := List.getElem_of_mem member
        rw [List.length_take] at within
        rw [List.getElem_take, isBlank_getElem, before j (Nat.zero_le j) (by omega)]
        rfl
      have inBack : ∀ c ∈ input.drop (k + 1), isBlank c = true := by
        intro c member
        obtain ⟨j, within, rfl⟩ := List.getElem_of_mem member
        rw [List.length_drop] at within
        rw [List.getElem_drop, isBlank_getElem, behind (k + 1 + j) (by omega) (by omega)]
        rfl
      have solid : isBlank input[i] = false := by
        rw [isBlank_getElem inside, passes]
        rfl
      have solid' : isBlank input[k] = false := by
        rw [isBlank_getElem inside', passes']
        rfl
      have split {j : Nat} (within : j < input.length) : input = input.take j ++ input[j] :: input.drop (j + 1) := by
        rw [← List.drop_eq_getElem_cons within, List.take_append_drop]
      obtain ⟨ends, ordered⟩ := trimEnds_eq (split inside) (split inside') inFront inBack solid solid'
      rw [List.length_take_of_le inside.le, List.length_take_of_le inside'.le] at ends ordered
      dsimp only
      rw [ends, Nat.sub_add_comm ordered]

theorem trimWhitespaceASCII_trimmed (input : StringType) :
    trimWhitespaceASCII (trimWhitespaceASCII input) = trimWhitespaceASCII input := by
  rw [trimWhitespaceASCII_eq, trimWhitespaceASCII_eq, trimEnds_trimEnds]

/-! ### Switches -/

theorem getSwitchPrefixLength_eq (string : StringType) : getSwitchPrefixLength string =
    if string.take 2 = [0x2d, 0x2d] then 2 else if string.take 1 = [0x2d] then 1 else 0 := by
  simp only [getSwitchPrefixLength, kSwitchPrefixes, List.find?_cons, List.find?_nil, List.length_cons, List.length_nil]
  by_cases two : string.take 2 = [0x2d, 0x2d]
  · rw [if_pos two, decide_eq_true two]
    rfl
  · rw [if_neg two, decide_eq_false two]
    by_cases one : string.take 1 = [0x2d]
    · rw [if_pos one, decide_eq_true one]
      rfl
    · rw [if_neg one, decide_eq_false one]
      rfl

theorem getSwitchPrefixLength_append (string value : StringType) :
    getSwitchPrefixLength (string ++ kSwitchValueSeparator :: value) = getSwitchPrefixLength string := by
  rw [getSwitchPrefixLength_eq, getSwitchPrefixLength_eq]
  cases string with
  | nil => simp [kSwitchValueSeparator]
  | cons c string =>
    cases string with
    | nil => simp [kSwitchValueSeparator]
    | cons d string => rfl

variable {string : StringType}

theorem mem_of_getSwitchPrefixLength (nonempty : getSwitchPrefixLength string ≠ 0)
    (whole : getSwitchPrefixLength string = string.length) : string ∈ kSwitchPrefixes := by
  rw [getSwitchPrefixLength_eq] at nonempty whole
  split at whole
  next two =>
    rw [whole, List.take_length] at two
    rw [two]
    exact List.mem_cons_self
  next =>
    split at whole
    next one =>
      rw [whole, List.take_length] at one
      rw [one]
      exact List.mem_cons_of_mem _ List.mem_cons_self
    next => simp_all

theorem getSwitchPrefixLength_of_mem (member : string ∈ kSwitchPrefixes) :
    getSwitchPrefixLength string = string.length := by
  revert string
  decide

theorem prefixed_of_prefix (has : getSwitchPrefixLength string ≠ 0) : prefixed string = string :=
  if_neg has

theorem getSwitchPrefixLength_prefixed (string : StringType) : getSwitchPrefixLength (prefixed string) ≠ 0 := by
  rw [prefixed]
  split
  next =>
    rw [getSwitchPrefixLength_eq]
    exact Nat.succ_ne_zero 1
  next has => exact has

theorem switchKey_prefixed (string : StringType) : switchKey (prefixed string) = switchKey string := by
  rw [prefixed]
  split
  next lacks =>
    rw [switchKey, switchKey, lacks, getSwitchPrefixLength_eq]
    rfl
  next => rfl

section
variable (plain : kSwitchValueSeparator ∉ string)
include plain

theorem separator_not_mem_prefixed :
    kSwitchValueSeparator ∉ prefixed string := by
  rw [prefixed]
  split
  next =>
    rw [List.mem_append]
    rintro (inPrefix | member)
    · revert inPrefix
      decide
    · exact plain member
  next => exact plain

theorem findIdx?_separator :
    string.findIdx? (· = kSwitchValueSeparator) = none := by
  rw [List.findIdx?_eq_none_iff]
  intro c member
  exact decide_eq_false fun same => plain (same ▸ member)

theorem findIdx?_separator_append (value : StringType) :
    (string ++ kSwitchValueSeparator :: value).findIdx? (· = kSwitchValueSeparator) = some string.length := by
  rw [List.findIdx?_append, findIdx?_separator plain, List.findIdx?_cons]
  simp

end

theorem isSwitch_eq_some {switch_string value : StringType} (read : isSwitch string = some (switch_string, value)) :
    string ∉ kSwitchPrefixes ∧ getSwitchPrefixLength switch_string ≠ 0 ∧ kSwitchValueSeparator ∉ switch_string ∧
      (string = switch_string ∧ value = [] ∨ string = switch_string ++ kSwitchValueSeparator :: value) := by
  unfold isSwitch at read
  dsimp only at read
  split at read
  next => cases read
  next is_ =>
    rw [not_or] at is_
    have bare : string ∉ kSwitchPrefixes := fun member => is_.2 (getSwitchPrefixLength_of_mem member)
    cases found : string.findIdx? (· = kSwitchValueSeparator) with
    | none =>
      rw [found] at read
      cases read
      have plain : kSwitchValueSeparator ∉ string := by
        intro member
        have passes := List.findIdx?_eq_none_iff.mp found _ member
        exact absurd rfl (of_decide_eq_false passes)
      exact ⟨bare, is_.1, plain, .inl ⟨rfl, rfl⟩⟩
    | some position =>
      rw [found] at read
      cases read
      obtain ⟨inside, here, before⟩ := List.findIdx?_eq_some_iff_getElem.mp found
      have same : string = string.take position ++ kSwitchValueSeparator :: string.drop (position + 1) := by
        conv_lhs => rw [← List.take_append_drop position string, List.drop_eq_getElem_cons inside,
          of_decide_eq_true here]
      have plain : kSwitchValueSeparator ∉ string.take position := by
        intro member
        obtain ⟨j, within, equal⟩ := List.getElem_of_mem member
        rw [List.length_take] at within
        rw [List.getElem_take] at equal
        have earlier := before j (by omega)
        rw [equal] at earlier
        exact earlier (decide_eq_true rfl)
      refine ⟨bare, ?_, plain, .inr same⟩
      rw [← getSwitchPrefixLength_append _ (string.drop (position + 1)), ← same]
      exact is_.1

/-- The rendering of a switch is neither a bare prefix nor changed by trimming, and its first separator is the one
before the value. -/
structure Readable (switch_string value : StringType) : Prop where
  plain : kSwitchValueSeparator ∉ switch_string
  bare : combinedSwitchString switch_string value ∉ kSwitchPrefixes
  trimmed : trimWhitespaceASCII (combinedSwitchString switch_string value) = combinedSwitchString switch_string value

theorem getSwitchPrefixLength_combined (switch_string value : StringType) :
    getSwitchPrefixLength (combinedSwitchString switch_string value) ≠ 0 := by
  rw [combinedSwitchString]
  split
  next =>
    rw [getSwitchPrefixLength_append]
    exact getSwitchPrefixLength_prefixed switch_string
  next => exact getSwitchPrefixLength_prefixed switch_string

/-- A rendered switch is read back, with its prefix. -/
theorem Readable.isSwitch {switch_string value : StringType} (readable : Readable switch_string value) :
    isSwitch (combinedSwitchString switch_string value) = some (prefixed switch_string, value) := by
  have has := getSwitchPrefixLength_combined switch_string value
  have longer : getSwitchPrefixLength (combinedSwitchString switch_string value) ≠
      (combinedSwitchString switch_string value).length :=
    fun whole => readable.bare (mem_of_getSwitchPrefixLength has whole)
  have plain := separator_not_mem_prefixed readable.plain
  rw [CommandLine.isSwitch, if_neg (not_or.mpr ⟨has, longer⟩), combinedSwitchString]
  by_cases empty : value = []
  · rw [if_neg (not_not.mpr empty), findIdx?_separator plain, empty]
  · rw [if_pos empty, findIdx?_separator_append plain]
    dsimp only
    rw [List.take_left' rfl, List.drop_append]
    simp

theorem combined_prefixed (switch_string value : StringType) :
    combinedSwitchString (prefixed switch_string) value = combinedSwitchString switch_string value := by
  rw [combinedSwitchString, prefixed_of_prefix (getSwitchPrefixLength_prefixed switch_string), combinedSwitchString]

end CommandLine
end Libchrome.Base
