import Libchrome.Base.NumberConversions
import Libchrome.Base.Strings.StringSplit

/-! The lines of `/proc/<pid>/stat` (`internal_linux.cc`, `process_metrics_linux.cc`). -/

namespace Libchrome.Base.Process
open Library.Bytes Library.Searching Strings NumberConversions

/-- `VM_UTIME`. -/
def vmUtime : Nat := 13

/-- The size of a string object. -/
abbrev Fits (text : List Byte) : Prop := text.length < 2 ^ 63

/-- `ParseProcStats`: the fields, or `none` where it returns false. -/
def parseProcStats (stats_data : List Byte) (fits : Fits stats_data) : Option (List (List Byte)) :=
  if stats_data = [] then none
  else
    let open_parens_idx := stdFind stats_data [ascii ' ', ascii '('] 0
    let close_parens_idx := stdRfind stats_data [ascii ')', ascii ' '] npos
    if open_parens_idx = npos ∨ close_parens_idx = npos ∨ open_parens_idx > close_parens_idx then none
    else
      let open_parens_idx := open_parens_idx + 1
      (stdSubstr stats_data 0 open_parens_idx).bind fun pid =>
        (stdSubstr stats_data (open_parens_idx + 1) (sizeSub close_parens_idx (open_parens_idx + 1))).bind fun name =>
          (splitString stdString .trimWhitespace .splitWantAll
            (substrT (ofString stats_data fits) (close_parens_idx + 2) npos) (ofString [ascii ' '] (by decide))).map
            fun other_stats => pid :: name :: other_stats

def isDigit (c : Byte) : Bool := 0x30 ≤ c.toNat ∧ c.toNat ≤ 0x39

/-- The number that decimal digits denote. -/
def decimal (digits : List Byte) : Nat := digits.foldl (fun value c => 10 * value + (c.toNat - 0x30)) 0

/-- The `%d` of `sscanf`: the number, and what is behind it. -/
def scanInt (text : List Byte) : Option (Int × List Byte) :=
  let text := text.dropWhile isSpace
  let negative := text.head? = some (ascii '-')
  let text := if negative ∨ text.head? = some (ascii '+') then text.tail else text
  let digits := text.takeWhile isDigit
  if digits = [] then none
  else some (if negative then -(decimal digits : Int) else decimal digits, text.drop digits.length)

def inInt (value : Int) : Prop := -2 ^ 31 ≤ value ∧ value < 2 ^ 31

instance decidableInInt (value : Int) : Decidable (inInt value) := inferInstanceAs (Decidable (_ ∧ _))

/-- The two times at a position; `none` where a number or the sum does not fit, which is undefined. -/
def scanTimes (text : List Byte) : Option Int :=
  match scanInt text with
  | none => some (-1)
  | some (utime, rest) =>
    if ¬ inInt utime then none
    else
      match scanInt rest with
      | none => some (-1)
      | some (stime, _) => if inInt stime ∧ inInt (utime + stime) then some (utime + stime) else none

/-- The loop with the number of spaces that remain; `none` also where its check fails. -/
def skipSpaces (input : List Byte) : Nat → Nat → Option Int
  | 0, i => scanTimes (input.drop i)
  | num_spaces_remaining + 1, i =>
    let i := stdFind input [ascii ' '] (i + 1)
    if i = npos then some (-1)
    else if input[i - 1]? = some (ascii ' ') then none
    else skipSpaces input num_spaces_remaining i

def parseProcStatCPU (input : List Byte) : Option Int :=
  if input = [] then some (-1)
  else
    let start := stdFindLastOf input [ascii ')'] npos
    if start = npos then some (-1) else skipSpaces input (vmUtime - 1) start

/-! ### Lines -/

/-- A line of the kernel: `pid (comm) f3 f4 ...`. -/
def line (pid comm : List Byte) (fields : List (List Byte)) : List Byte :=
  pid ++ [ascii ' ', ascii '('] ++ comm ++ [ascii ')'] ++ fields.flatMap (ascii ' ' :: ·)

/-- A field has no space and no parenthesis. -/
def Plain (field : List Byte) : Prop := ∀ c ∈ field, c ≠ ascii ' ' ∧ c ≠ ascii '(' ∧ c ≠ ascii ')'

instance decidablePlain (field : List Byte) : Decidable (Plain field) := inferInstanceAs (Decidable (∀ c ∈ field, _))

/-- A decimal number. -/
def IsDecimal (field : List Byte) : Prop := field ≠ [] ∧ ∀ c ∈ field, isDigit c = true

/-- What the two parsers are to do with a line. -/
structure Parses (pid comm : List Byte) (fields : List (List Byte)) (fits : Fits (line pid comm fields)) : Prop where
  stats : parseProcStats (line pid comm fields) fits = some (pid :: comm :: fields)
  times : ∀ utime stime, fields[vmUtime - 2]? = some utime → fields[vmUtime - 1]? = some stime → IsDecimal utime →
    IsDecimal stime → decimal utime + decimal stime < 2 ^ 31 →
    parseProcStatCPU (line pid comm fields) = some (decimal utime + decimal stime : Nat)

/-! ### The searches -/

section Searches

variable {front back text : List Byte} {c d : Byte}

theorem stdFind_pair (absent : c ∉ front) : stdFind (front ++ c :: d :: back) [c, d] 0 = front.length := by
  have found : lowest (fun i => i + [c, d].length ≤ (front ++ c :: d :: back).length &&
      matchesAt (front ++ c :: d :: back) [c, d] i) 0 ((front ++ c :: d :: back).length + 1 - 0) =
        some front.length := by
    rw [lowest_eq_some_iff, Bool.and_eq_true, decide_eq_true_iff, List.length_append]
    refine ⟨Nat.zero_le _, by omega, ⟨?_, ?_⟩, fun j _ before => ?_⟩
    · exact Nat.add_le_add_left (Nat.le_add_left 2 back.length) front.length
    · rw [matchesAt, List.drop_left]
      exact decide_eq_true rfl
    · rw [Bool.and_eq_false_iff]
      refine .inr (Bool.eq_false_iff.mpr fun matched => ?_)
      have first := matchesAt_iff_getElem.mp matched 0 (Nat.succ_pos _)
      rw [Nat.add_zero, List.getElem?_append_left before, List.getElem?_cons_zero] at first
      exact absent (List.mem_of_getElem? first)
  rw [stdFind, found, Option.getD_some]

theorem stdRfind_pair (absent : c ∉ d :: back) (fits : Fits (front ++ c :: d :: back)) :
    stdRfind (front ++ c :: d :: back) [c, d] npos = front.length := by
  have length : (front ++ c :: d :: back).length = front.length + (back.length + 2) := List.length_append
  have found : highest (fun i => i ≤ npos && (i + [c, d].length ≤ (front ++ c :: d :: back).length &&
      matchesAt (front ++ c :: d :: back) [c, d] i)) ((front ++ c :: d :: back).length + 1) = some front.length := by
    rw [highest_eq_some_iff, Bool.and_eq_true, Bool.and_eq_true, decide_eq_true_iff, decide_eq_true_iff]
    refine ⟨by omega, ⟨?_, ?_, ?_⟩, fun j after _ => ?_⟩
    · rw [npos]
      rw [Fits, length] at fits
      omega
    · exact length ▸ Nat.add_le_add_left (Nat.le_add_left 2 back.length) front.length
    · rw [matchesAt, List.drop_left]
      exact decide_eq_true rfl
    · rw [Bool.and_eq_false_iff, Bool.and_eq_false_iff]
      refine .inr (.inr (Bool.eq_false_iff.mpr fun matched => ?_))
      have first := matchesAt_iff_getElem.mp matched 0 (Nat.succ_pos _)
      obtain ⟨k, rfl⟩ := Nat.exists_eq_add_of_lt after
      rw [Nat.add_zero, Nat.add_assoc, List.getElem?_append_right (Nat.le_add_right _ _), Nat.add_sub_cancel_left,
        List.getElem?_cons_succ, List.getElem?_cons_zero] at first
      exact absent (List.mem_of_getElem? first)
  rw [stdRfind, found, Option.getD_some]

theorem stdFindLastOf_singleton (absent : c ∉ back) (fits : Fits (front ++ c :: back)) :
    stdFindLastOf (front ++ c :: back) [c] npos = front.length := by
  have length : (front ++ c :: back).length = front.length + (back.length + 1) := List.length_append
  have found : highest (fun i => i ≤ npos && (front ++ c :: back)[i]?.any fun other => [c].contains other)
      (front ++ c :: back).length = some front.length := by
    rw [highest_eq_some_iff, Bool.and_eq_true, decide_eq_true_iff]
    refine ⟨by omega, ⟨?_, ?_⟩, fun j after _ => ?_⟩
    · rw [npos]
      rw [Fits, length] at fits
      omega
    · rw [List.getElem?_append_right (Nat.le_refl _), Nat.sub_self, List.getElem?_cons_zero, Option.any_some]
      exact List.contains_iff_mem.mpr (List.mem_singleton_self c)
    · rw [Bool.and_eq_false_iff]
      refine .inr (Bool.eq_false_iff.mpr fun passes => ?_)
      obtain ⟨other, here, same⟩ := (Option.any_eq_true _ _).mp passes
      cases List.mem_singleton.mp (List.contains_iff_mem.mp same)
      obtain ⟨k, rfl⟩ := Nat.exists_eq_add_of_lt after
      rw [Nat.add_assoc, List.getElem?_append_right (Nat.le_add_right _ _), Nat.add_sub_cancel_left,
        List.getElem?_cons_succ] at here
      exact absent (List.mem_of_getElem? here)
  rw [stdFindLastOf, lastPassing, found, Option.getD_some]

theorem stdFind_next {pos : Nat} (rest : text.drop pos = front ++ c :: back) (absent : c ∉ front) :
    stdFind text [c] pos = pos + front.length := by
  have length := congrArg List.length rest
  rw [List.length_drop, List.length_append, List.length_cons] at length
  have place (k : Nat) : text[pos + k]? = (front ++ c :: back)[k]? := by rw [← rest, List.getElem?_drop]
  have found : lowest (fun i => text[i]?.any fun other => other = c) pos (text.length - pos) =
      some (pos + front.length) := by
    rw [lowest_eq_some_iff]
    refine ⟨Nat.le_add_right _ _, by omega, ?_, fun j above before => ?_⟩
    · rw [place, List.getElem?_append_right (Nat.le_refl _), Nat.sub_self, List.getElem?_cons_zero, Option.any_some]
      exact decide_eq_true rfl
    · refine Bool.eq_false_iff.mpr fun passes => ?_
      obtain ⟨other, here, same⟩ := (Option.any_eq_true _ _).mp passes
      cases of_decide_eq_true same
      obtain ⟨k, rfl⟩ := Nat.exists_eq_add_of_le above
      rw [place, List.getElem?_append_left (Nat.lt_of_add_lt_add_left before)] at here
      exact absent (List.mem_of_getElem? here)
  rw [stdFind_singleton, firstPassing, found, Option.getD_some]

end Searches

/-! ### `ParseProcStats` -/

section Stats

variable {pid comm : List Byte} {fields : List (List Byte)}

theorem not_mem_of_digits {c : Byte} (digits : ∀ c ∈ pid, isDigit c = true) (other : isDigit c = false) : c ∉ pid :=
  fun member => absurd (digits c member) (Bool.eq_false_iff.mp other)

theorem line_eq : line pid comm fields =
    pid ++ ascii ' ' :: ascii '(' :: (comm ++ ascii ')' :: fields.flatMap (ascii ' ' :: ·)) := by
  rw [line, List.append_assoc, List.append_assoc, List.append_assoc]
  rfl

theorem head?_parseProcStats (digits : ∀ c ∈ pid, isDigit c = true) (fits : Fits (line pid comm fields))
    {stats : List (List Byte)} (parsed : parseProcStats (line pid comm fields) fits = some stats) :
    stats.head? = some (pid ++ [ascii ' ']) := by
  have open_ : stdFind (line pid comm fields) [ascii ' ', ascii '('] 0 = pid.length := by
    rw [line_eq]
    exact stdFind_pair (not_mem_of_digits digits (by decide))
  have front : stdSubstr (line pid comm fields) 0 (pid.length + 1) = some (pid ++ [ascii ' ']) := by
    rw [stdSubstr, if_neg (Nat.not_lt_zero _), List.drop_zero, line_eq, List.take_append, List.take_of_length_le
      (Nat.le_succ _), Nat.add_sub_cancel_left]
    rfl
  rw [parseProcStats] at parsed
  split at parsed
  next => cases parsed
  next =>
    dsimp only at parsed
    rw [open_] at parsed
    split at parsed
    next => cases parsed
    next =>
      rw [front, Option.bind_some] at parsed
      obtain ⟨name, _, parsed⟩ := Option.bind_eq_some_iff.mp parsed
      obtain ⟨other_stats, _, rfl⟩ := Option.map_eq_some_iff.mp parsed
      rfl

theorem parseProcStats_ne (digits : ∀ c ∈ pid, isDigit c = true) (fits : Fits (line pid comm fields)) :
    parseProcStats (line pid comm fields) fits ≠ some (pid :: comm :: fields) := by
  intro parsed
  have first := head?_parseProcStats digits fits parsed
  rw [List.head?_cons, Option.some.injEq, List.self_eq_append_right] at first
  cases first

theorem flatMap_eq_intercalate (some_ : fields ≠ []) :
    fields.flatMap (ascii ' ' :: ·) = ascii ' ' :: [ascii ' '].intercalate fields := by
  induction fields with
  | nil => exact absurd rfl some_
  | cons field rest ih =>
    cases rest with
    | nil => rw [List.flatMap_singleton, List.intercalate_singleton]
    | cons second rest =>
      rw [List.flatMap_cons, ih (List.cons_ne_nil second rest), List.intercalate_cons_cons, List.append_assoc]
      rfl

section
variable (plain : ∀ field ∈ fields, Plain field)
include plain

theorem ne_space_of_plain : ∀ field ∈ fields, ascii ' ' ∉ field :=
  fun field member inside => (plain field member _ inside).1 rfl

theorem not_mem_fields : ascii ')' ∉ fields.flatMap (ascii ' ' :: ·) := by
  intro member
  obtain ⟨field, held, inside⟩ := List.mem_flatMap.mp member
  rcases List.mem_cons.mp inside with same | inside
  · exact absurd same (by decide)
  · exact (plain field held _ inside).2.2 rfl

theorem splitString_fields (some_ : fields ≠ [])
    (whole : ∀ field ∈ fields, field ≠ []) {input : StringPiece} (rest : input.chars = [ascii ' '].intercalate fields) :
    splitString stdString .trimWhitespace .splitWantAll input (ofString [ascii ' '] (by decide)) =
      some (fields.map (trimPiece stdString .trimWhitespace)) := by
  obtain ⟨findFirstOf, finds, same⟩ := splitWith_searches stdString_lawful input (ofString [ascii ' '] (by decide))
  have separator : (fun d => (ofString [ascii ' '] (by decide)).chars.contains d) = fun d => d == ascii ' ' := by
    funext d
    rw [chars_ofString, List.contains_cons, List.contains_nil, Bool.or_false]
  have more : input.chars ≠ [] := by
    obtain ⟨first, others, rfl⟩ := List.exists_cons_of_ne_nil some_
    obtain ⟨c, field, rfl⟩ := List.exists_cons_of_ne_nil (whole first List.mem_cons_self)
    rw [rest]
    cases others with
    | nil => exact List.cons_ne_nil _ _
    | cons second others => exact List.cons_ne_nil _ _
  have split : ([ascii ' '].intercalate fields).splitOnP (fun d => d == ascii ' ') = fields :=
    List.splitOn_intercalate (ascii ' ') (ne_space_of_plain plain) some_
  rw [splitString, same, splitStringT_eq stdString_lawful _ _ finds, if_neg more, separator, rest, split]
  rfl

end

theorem parseProcStats_line (digits : ∀ c ∈ pid, isDigit c = true) (plain : ∀ field ∈ fields, Plain field)
    (some_ : fields ≠ []) (whole : ∀ field ∈ fields, field ≠ []) (fits : Fits (line pid comm fields)) :
    parseProcStats (line pid comm fields) fits =
      some ((pid ++ [ascii ' ']) :: comm :: fields.map (trimPiece stdString .trimWhitespace)) := by
  have split : line pid comm fields =
      (pid ++ ascii ' ' :: ascii '(' :: comm) ++ ascii ')' :: ascii ' ' :: [ascii ' '].intercalate fields := by
    rw [line_eq, flatMap_eq_intercalate some_, List.append_assoc]
    rfl
  have open_ : stdFind (line pid comm fields) [ascii ' ', ascii '('] 0 = pid.length := by
    rw [line_eq]
    exact stdFind_pair (not_mem_of_digits digits (by decide))
  have absent : ascii ')' ∉ ascii ' ' :: [ascii ' '].intercalate fields :=
    flatMap_eq_intercalate some_ ▸ not_mem_fields plain
  have close : stdRfind (line pid comm fields) [ascii ')', ascii ' '] npos = pid.length + (comm.length + 2) := by
    have last := stdRfind_pair absent (split ▸ fits)
    rwa [← split, List.length_append, List.length_cons, List.length_cons] at last
  have length : pid.length + (comm.length + 2) < 2 ^ 63 := by
    have longer := congrArg List.length split
    rw [List.length_append, List.length_append, List.length_cons, List.length_cons] at longer
    rw [Fits] at fits
    omega
  have front : stdSubstr (line pid comm fields) 0 (pid.length + 1) = some (pid ++ [ascii ' ']) := by
    rw [stdSubstr, if_neg (Nat.not_lt_zero _), List.drop_zero, line_eq, List.take_append,
      List.take_of_length_le (Nat.le_succ _), Nat.add_sub_cancel_left]
    rfl
  have name : stdSubstr (line pid comm fields) (pid.length + 1 + 1)
      (sizeSub (pid.length + (comm.length + 2)) (pid.length + 1 + 1)) = some comm := by
    have size : sizeSub (pid.length + (comm.length + 2)) (pid.length + 1 + 1) = comm.length := by
      rw [sizeSub]
      omega
    have start : (line pid comm fields).drop (pid.length + 1 + 1) =
        comm ++ ascii ')' :: fields.flatMap (ascii ' ' :: ·) := by
      rw [line_eq, List.drop_append, List.drop_of_length_le (Nat.le_add_right _ 2), List.nil_append, Nat.add_assoc,
        Nat.add_sub_cancel_left]
      rfl
    have inside : ¬ (line pid comm fields).length < pid.length + 1 + 1 := by
      rw [line_eq, List.length_append, List.length_cons, List.length_cons]
      omega
    rw [stdSubstr, if_neg inside, size, start, List.take_left]
  have rest : (substrT (ofString (line pid comm fields) fits) (pid.length + (comm.length + 2) + 2) npos).chars =
      [ascii ' '].intercalate fields := by
    have start : (line pid comm fields).drop (pid.length + (comm.length + 2) + 2) = [ascii ' '].intercalate fields := by
      have size : (pid ++ ascii ' ' :: ascii '(' :: comm).length = pid.length + (comm.length + 2) := List.length_append
      rw [split, List.drop_append, List.drop_of_length_le (size ▸ Nat.le_add_right _ 2), List.nil_append, size,
        Nat.add_sub_cancel_left]
      rfl
    have short : ([ascii ' '].intercalate fields).length ≤ npos := by
      have longer := congrArg List.length start
      rw [List.length_drop] at longer
      rw [Fits] at fits
      rw [npos]
      omega
    rw [chars_substrT, chars_ofString, start, List.take_of_length_le short]
  have line_ne : line pid comm fields ≠ [] := by
    rw [split]
    exact List.append_ne_nil_of_right_ne_nil _ (List.cons_ne_nil _ _)
  have found : ¬ (pid.length = npos ∨ pid.length + (comm.length + 2) = npos ∨
      pid.length > pid.length + (comm.length + 2)) := by
    rw [npos]
    omega
  rw [parseProcStats, if_neg line_ne]
  dsimp only
  rw [open_, close, if_neg found, front, Option.bind_some, name, Option.bind_some,
    splitString_fields plain some_ whole rest, Option.map_some]

end Stats

/-! ### `ParseProcStatCPU` -/

theorem not_isSpace_of_isDigit {c : Byte} (digit : isDigit c = true) : isSpace c = false := by
  revert digit
  revert c
  decide

theorem not_sign_of_isDigit {c : Byte} (digit : isDigit c = true) : c ≠ ascii '-' ∧ c ≠ ascii '+' := by
  revert digit
  revert c
  decide

theorem scanInt_decimal {digits rest : List Byte} (number : IsDecimal digits)
    (ends : rest.head?.any isDigit = false) :
    scanInt (ascii ' ' :: (digits ++ rest)) = some ((decimal digits : Int), rest) := by
  obtain ⟨first, more, rfl⟩ := List.exists_cons_of_ne_nil number.1
  have digit := number.2 first List.mem_cons_self
  have sign := not_sign_of_isDigit digit
  have spaces : (ascii ' ' :: (first :: more ++ rest)).dropWhile isSpace = first :: more ++ rest := by
    rw [List.dropWhile_cons_of_pos (by decide), List.cons_append, List.dropWhile_cons_of_neg]
    rw [not_isSpace_of_isDigit digit]
    exact Bool.false_ne_true
  have taken : (first :: more ++ rest).takeWhile isDigit = first :: more := by
    rw [List.takeWhile_append_of_pos number.2]
    cases rest with
    | nil => rw [List.takeWhile_nil, List.append_nil]
    | cons c rest =>
      have other : ¬ isDigit c = true := Bool.eq_false_iff.mp ends
      rw [List.takeWhile_cons_of_neg other, List.append_nil]
  have positive : ¬ (first :: more ++ rest).head? = some (ascii '-') := fun same => sign.1 (Option.some.inj same)
  have plus : ¬ ((first :: more ++ rest).head? = some (ascii '-') ∨ (first :: more ++ rest).head? = some (ascii '+')) :=
    not_or.mpr ⟨positive, fun same => sign.2 (Option.some.inj same)⟩
  rw [scanInt, spaces, if_neg plus, taken, if_neg (List.cons_ne_nil first more), if_neg positive, List.drop_left]

theorem scanTimes_fields {utime stime rest : List Byte} (number : IsDecimal utime) (number' : IsDecimal stime)
    (ends : rest.head?.any isDigit = false) (fits : decimal utime + decimal stime < 2 ^ 31) :
    scanTimes (ascii ' ' :: (utime ++ ascii ' ' :: (stime ++ rest))) = some (decimal utime + decimal stime : Nat) := by
  have small : inInt (decimal utime : Int) := by
    rw [inInt]
    omega
  have small' : inInt (decimal stime : Int) ∧ inInt ((decimal utime : Int) + decimal stime) := by
    rw [inInt, inInt]
    omega
  rw [scanTimes, scanInt_decimal number (by rfl)]
  dsimp only
  rw [if_neg (not_not.mpr small), scanInt_decimal number' ends]
  dsimp only
  rw [if_pos small']
  rfl

section Rounds

variable {input current field : List Byte} {more fields : List (List Byte)} {i : Nat}

theorem skipSpaces_round (fits : Fits input)
    (rest : input.drop (i + 1) = current ++ (field :: more).flatMap (ascii ' ' :: ·)) (begun : ascii ' ' ∉ current)
    (before : current = [] → input[i]? ≠ some (ascii ' ')) (number : Nat) :
    skipSpaces input (number + 1) i = skipSpaces input number (i + 1 + current.length) ∧
      input.drop (i + 1 + current.length) = (field :: more).flatMap (ascii ' ' :: ·) := by
  have next : stdFind input [ascii ' '] (i + 1) = i + 1 + current.length := stdFind_next rest begun
  have inside : i + 1 + current.length ≠ npos := by
    have length := congrArg List.length rest
    rw [List.length_drop, List.length_append, List.flatMap_cons, List.cons_append, List.length_cons] at length
    rw [Fits] at fits
    rw [npos]
    omega
  have apart : input[i + 1 + current.length - 1]? ≠ some (ascii ' ') := by
    rcases List.eq_nil_or_concat current with rfl | ⟨front, last, rfl⟩
    · exact before rfl
    · intro same
      have place : input[i + 1 + front.length]? = some last := by
        rw [← List.getElem?_drop, rest, List.concat_eq_append, List.append_assoc,
          List.getElem?_append_right (Nat.le_refl _), Nat.sub_self]
        rfl
      rw [List.length_concat, ← Nat.add_assoc, Nat.add_sub_cancel, place] at same
      exact begun (List.concat_eq_append ▸ List.mem_append_right _ (List.mem_singleton.mpr (Option.some.inj same).symm))
  constructor
  · rw [skipSpaces, next, if_neg inside, if_neg apart]
  · rw [← List.drop_drop, rest, List.drop_left]

theorem skipSpaces_fields (fits : Fits input) (plain : ∀ field ∈ fields, Plain field)
    (whole : ∀ field ∈ fields, field ≠ []) (number : Nat)
    (rest : input.drop (i + 1) = current ++ fields.flatMap (ascii ' ' :: ·)) (begun : ascii ' ' ∉ current)
    (before : current = [] → input[i]? ≠ some (ascii ' ')) (enough : number < fields.length) :
    skipSpaces input (number + 1) i = scanTimes ((fields.drop number).flatMap (ascii ' ' :: ·)) := by
  induction number generalizing fields i current with
  | zero =>
    obtain ⟨field, more, rfl⟩ := List.exists_cons_of_ne_nil (List.ne_nil_of_length_pos enough)
    obtain ⟨round, here⟩ := skipSpaces_round fits rest begun before 0
    rw [round, skipSpaces, here, List.drop_zero]
  | succ number ih =>
    obtain ⟨field, more, rfl⟩ := List.exists_cons_of_ne_nil (List.ne_nil_of_length_pos (Nat.zero_lt_of_lt enough))
    obtain ⟨round, here⟩ := skipSpaces_round fits rest begun before (number + 1)
    have behind : input.drop (i + 1 + current.length + 1) = field ++ more.flatMap (ascii ' ' :: ·) := by
      rw [← List.drop_drop, here]
      rfl
    rw [round, List.drop_succ_cons]
    exact ih (fun other member => plain other (List.mem_cons_of_mem field member))
      (fun other member => whole other (List.mem_cons_of_mem field member)) behind
      (ne_space_of_plain plain field List.mem_cons_self)
      (fun empty => absurd empty (whole field List.mem_cons_self)) (Nat.lt_of_succ_lt_succ enough)

end Rounds

section Lines

variable {pid comm : List Byte} {fields : List (List Byte)}

theorem parseProcStatCPU_line (plain : ∀ field ∈ fields, Plain field) (whole : ∀ field ∈ fields, field ≠ [])
    (fits : Fits (line pid comm fields)) {utime stime : List Byte} (here : fields[vmUtime - 2]? = some utime)
    (here' : fields[vmUtime - 1]? = some stime) (number : IsDecimal utime) (number' : IsDecimal stime)
    (small : decimal utime + decimal stime < 2 ^ 31) :
    parseProcStatCPU (line pid comm fields) = some (decimal utime + decimal stime : Nat) := by
  have split : line pid comm fields =
      (pid ++ ascii ' ' :: ascii '(' :: comm) ++ ascii ')' :: fields.flatMap (ascii ' ' :: ·) := by
    rw [line_eq, List.append_assoc]
    rfl
  generalize front : pid ++ ascii ' ' :: ascii '(' :: comm = head at split
  have start : stdFindLastOf (line pid comm fields) [ascii ')'] npos = head.length := by
    rw [split]
    exact stdFindLastOf_singleton (not_mem_fields plain) (split ▸ fits)
  have length : head.length < 2 ^ 63 := by
    have longer := congrArg List.length split
    rw [List.length_append] at longer
    rw [Fits] at fits
    omega
  have rest : (line pid comm fields).drop (head.length + 1) = [] ++ fields.flatMap (ascii ' ' :: ·) := by
    rw [split, ← List.drop_drop, List.drop_left]
    rfl
  have place : (line pid comm fields)[head.length]? = some (ascii ')') := by
    rw [split, List.getElem?_append_right (Nat.le_refl _), Nat.sub_self]
    rfl
  have inside := (List.getElem?_eq_some_iff.mp here').1
  have loop := skipSpaces_fields fits plain whole (vmUtime - 2) rest List.not_mem_nil
    (fun _ => by rw [place]; decide) (Nat.lt_of_succ_lt inside)
  have line_ne : line pid comm fields ≠ [] := by
    rw [split]
    exact List.append_ne_nil_of_right_ne_nil _ (List.cons_ne_nil _ _)
  have found : head.length ≠ npos := by
    rw [npos]
    omega
  rw [parseProcStatCPU, if_neg line_ne]
  dsimp only
  rw [start, if_neg found]
  refine loop.trans ?_
  have drops : fields.drop (vmUtime - 2) = utime :: stime :: fields.drop vmUtime := by
    obtain ⟨before, rfl⟩ := List.getElem?_eq_some_iff.mp here
    obtain ⟨_, rfl⟩ := List.getElem?_eq_some_iff.mp here'
    rw [List.drop_eq_getElem_cons before]
    exact congrArg (_ :: ·) (List.drop_eq_getElem_cons inside)
  have ends : ((fields.drop vmUtime).flatMap (ascii ' ' :: ·)).head?.any isDigit = false := by
    cases fields.drop vmUtime with
    | nil => rfl
    | cons field more => rfl
  rw [drops, List.flatMap_cons, List.flatMap_cons]
  exact scanTimes_fields number number' ends small

/-- The process id is returned with the space behind it, so no line is parsed as it is to be. -/
theorem not_parses (digits : ∀ c ∈ pid, isDigit c = true) (plain : ∀ field ∈ fields, Plain field)
    (fits : Fits (line pid comm fields)) : ¬ Parses pid comm fields fits ∧
      (fields ≠ [] → (∀ field ∈ fields, field ≠ []) →
        parseProcStats (line pid comm fields) fits =
          some ((pid ++ [ascii ' ']) :: comm :: fields.map (trimPiece stdString .trimWhitespace)) ∧
        ∀ utime stime, fields[vmUtime - 2]? = some utime → fields[vmUtime - 1]? = some stime → IsDecimal utime →
          IsDecimal stime → decimal utime + decimal stime < 2 ^ 31 →
          parseProcStatCPU (line pid comm fields) = some (decimal utime + decimal stime : Nat)) :=
  ⟨fun parses => parseProcStats_ne digits fits parses.stats, fun some_ whole =>
    ⟨parseProcStats_line digits plain some_ whole fits, fun _ _ => parseProcStatCPU_line plain whole fits⟩⟩

/-- A command whose name has a parenthesis and a space. -/
theorem not_parses_sleep : ¬ Parses ("42".toList.map ascii) ("a) b".toList.map ascii) [[ascii 'S'], [ascii '1']]
    (by decide) := by
  have never := @not_parses ("42".toList.map ascii) ("a) b".toList.map ascii) [[ascii 'S'], [ascii '1']] (by decide)
    (by decide) (by decide)
  exact never.1

theorem parses_differs : ¬ ∀ (pid comm : List Byte) (fields : List (List Byte)) (fits : Fits (line pid comm fields)),
    (∀ c ∈ pid, isDigit c = true) → (∀ field ∈ fields, Plain field) → Parses pid comm fields fits := by
  intro all
  exact parseProcStats_ne (by decide) (by decide)
    (all [ascii '1'] ("init".toList.map ascii) [[ascii 'S']] (by decide) (by decide) (by decide)).stats

end Lines

end Libchrome.Base.Process
