import Libchrome.Dbus.PropertySet
import Libchrome.Base.Strings.Utf8Truncation

/-!
# The text of a message (`message.cc`)

The text of a double is that of `DoubleToString`, which is a parameter.
-/

namespace Libchrome.Dbus
open Library.Bytes Library.Consuming

/-- A `std::string`. -/
abbrev Text := List Byte

def octets (text : String) : Text := text.toUTF8.toList.map UInt8.toBitVec

def kBrokenMessage : Text := octets "[broken message]"

/-- A string, which is truncated if it is longer than the limit. -/
def shortened (value : Text) : Text :=
  let kTruncateLength := 100
  if value.length < kTruncateLength then value
  else
    Base.Strings.truncateUTF8ToByteSize value kTruncateLength ++
      octets ("... (" ++ toString value.length ++ " bytes in total)")

/-- The line of a basic value, behind the indent. -/
def Basic.line (doubleToString : UInt64 → Text) : Basic → Text
  | .byte value => octets ("byte " ++ toString value.toNat ++ "\n")
  | .boolean value => octets ("bool " ++ (if value then "true" else "false") ++ "\n")
  | .int16 value => octets ("int16_t " ++ toString value.toInt ++ "\n")
  | .uint16 value => octets ("uint16_t " ++ toString value.toNat ++ "\n")
  | .int32 value => octets ("int32_t " ++ toString value.toInt ++ "\n")
  | .uint32 value => octets ("uint32_t " ++ toString value.toNat ++ "\n")
  | .int64 value => octets ("int64_t " ++ toString value.toInt ++ "\n")
  | .uint64 value => octets ("uint64_t " ++ toString value.toNat ++ "\n")
  | .double bits => octets "double " ++ doubleToString bits ++ octets "\n"
  | .string value => octets "string \"" ++ shortened (octets value) ++ octets "\"\n"
  | .objectPath value => octets "object_path \"" ++ octets value ++ octets "\"\n"
  | .signature _ => []
  | .unixFd _ => []

structure Message where
  message_type : String
  destination : String
  path : String
  interface : String
  member : String
  error_name : String
  sender : String
  signature : String
  serial : UInt32
  reply_serial : UInt32
  arguments : Reader

namespace Message

def appendStringHeader (header_name header_value : String) : Text :=
  if header_value = "" then [] else octets (header_name ++ ": " ++ header_value ++ "\n")

def appendUint32Header (header_name : String) (header_value : UInt32) : Text :=
  if header_value = 0 then [] else octets (header_name ++ ": " ++ toString header_value.toNat ++ "\n")

def headers (message : Message) : Text :=
  appendStringHeader "message_type" message.message_type ++ appendStringHeader "destination" message.destination ++
    appendStringHeader "path" message.path ++ appendStringHeader "interface" message.interface ++
    appendStringHeader "member" message.member ++ appendStringHeader "error_name" message.error_name ++
    appendStringHeader "sender" message.sender ++ appendStringHeader "signature" message.signature ++
    appendUint32Header "serial" message.serial ++ appendUint32Header "reply_serial" message.reply_serial

/-- The case of a container, between two texts. -/
def printContainer (print : Text → Reader → Walk (Ending Text)) (dbus_type : DataType) (opening closing indent : Text)
    (reader : Reader) (output : Text) : Walk (Round Value Text (Ending Text)) :=
  match popContainer dbus_type reader with
  | none => pure (.leave (.returned kBrokenMessage))
  | some (sub_reader, reader) => do
    match ← print (indent ++ octets "  ") sub_reader with
    | .returned text => pure (.again reader (output ++ ((indent ++ opening) ++ (text ++ closing))))
    | .aborted => pure (.leave .aborted)

/-- `ToStringInternal` with its text. It aborts at `LOG(FATAL)` for a signature, and at the `CHECK` of `FileDescriptor::value`,
since `PutValue` leaves the descriptor unchecked. -/
def toStringInternal (doubleToString : UInt64 → Text) : Nat → Text → Reader → Walk (Ending Text)
  | 0, _, _ => none
  | fuel + 1, indent, reader =>
    let print := toStringInternal doubleToString fuel
    whileMore
      (fun reader output =>
        match getDataType reader with
        | none => pure (.leave (.returned output))
        | some type =>
          match type with
          | .signature => pure (.leave .aborted)
          | .unixFd =>
            match popBasic .unixFd reader with
            | none => pure (.leave (.returned kBrokenMessage))
            | some _ => pure (.leave .aborted)
          | .array => printContainer print .array (octets "array [\n") (indent ++ octets "]\n") indent reader output
          | .struct =>
            printContainer print .struct (octets "struct \x7b\n") (indent ++ octets "\x7d\n") indent reader output
          | .dictEntry =>
            printContainer print .dictEntry (octets "dict entry \x7b\n") (indent ++ octets "\x7d\n") indent reader
              output
          | .variant => printContainer print .variant (octets "variant ") [] indent reader output
          | _ =>
            match popBasic type reader with
            | none => pure (.leave (.returned kBrokenMessage))
            | some (value, reader) => pure (.again reader (output ++ (indent ++ value.line doubleToString))))
      .returned (fuel + 1) reader []

/-- `ToString`, where there is a message. -/
def toString (doubleToString : UInt64 → Text) (fuel : Nat) (message : Message) : Walk (Ending Text) := do
  match ← toStringInternal doubleToString fuel [] message.arguments with
  | .returned text => pure (.returned (message.headers ++ (octets "\n" ++ text)))
  | .aborted => pure .aborted

end Message

/-! ### The text of a tree -/

/-- A part of the text, with the basic value that it prints. -/
structure Segment where
  leaf : Option Basic
  text : Text

section Printing
variable (doubleToString : UInt64 → Text)

mutual

def Value.segments (indent : Text) : Value → List Segment
  | .basic value => [⟨some value, indent ++ value.line doubleToString⟩]
  | .array elements =>
    ⟨none, indent ++ octets "array [\n"⟩ :: segmentsOf (indent ++ octets "  ") elements ++
      [⟨none, indent ++ octets "]\n"⟩]
  | .struct fields =>
    ⟨none, indent ++ octets "struct \x7b\n"⟩ :: segmentsOf (indent ++ octets "  ") fields ++
      [⟨none, indent ++ octets "\x7d\n"⟩]
  | .dictEntry key value =>
    ⟨none, indent ++ octets "dict entry \x7b\n"⟩ ::
      ⟨some key, (indent ++ octets "  ") ++ key.line doubleToString⟩ :: value.segments (indent ++ octets "  ") ++
      [⟨none, indent ++ octets "\x7d\n"⟩]
  | .variant value => ⟨none, indent ++ octets "variant "⟩ :: value.segments (indent ++ octets "  ")

def segmentsOf (indent : Text) : List Value → List Segment
  | [] => []
  | value :: rest => value.segments indent ++ segmentsOf indent rest

end

/-- How printing the values ends. -/
def rendered (indent : Text) (reader : Reader) : Ending Text :=
  if (leavesOf reader).all Basic.printed then
    .returned ((segmentsOf doubleToString indent reader).flatMap Segment.text)
  else .aborted

/-- A round behind the text so far. -/
def printValue (indent output : Text) (value : Value) : Option Text :=
  if value.leaves.all Basic.printed then
    some (output ++ (value.segments doubleToString indent).flatMap Segment.text)
  else none

variable {doubleToString} {indent output : Text} {fuel : Nat} {reader rest : Reader}

mutual

/-- Every leaf is printed once, in order. -/
theorem leaves_segments (indent : Text) (value : Value) :
    (value.segments doubleToString indent).filterMap Segment.leaf = value.leaves := by
  cases value with
  | basic value => rfl
  | array elements => simp [Value.segments, Value.leaves, leavesOf_segmentsOf]
  | struct fields => simp [Value.segments, Value.leaves, leavesOf_segmentsOf]
  | dictEntry key value => simp [Value.segments, Value.leaves, leaves_segments]
  | variant value => simp [Value.segments, Value.leaves, leaves_segments]

theorem leavesOf_segmentsOf (indent : Text) (reader : Reader) :
    (segmentsOf doubleToString indent reader).filterMap Segment.leaf = leavesOf reader := by
  cases reader with
  | nil => rfl
  | cons value rest => rw [segmentsOf, List.filterMap_append, leaves_segments, leavesOf_segmentsOf, leavesOf]

end

theorem foldlM_printValue :
    (reader.foldlM (printValue doubleToString indent) output).elim .aborted .returned =
      if (leavesOf reader).all Basic.printed then
        Ending.returned (output ++ (segmentsOf doubleToString indent reader).flatMap Segment.text)
      else .aborted := by
  induction reader generalizing output with
  | nil => simp [leavesOf, segmentsOf]
  | cons value rest ih =>
    rw [List.foldlM_cons, printValue, leavesOf, segmentsOf, List.all_append, List.flatMap_append]
    cases value.leaves.all Basic.printed with
    | false => rfl
    | true =>
      change Option.elim (rest.foldlM _ _) _ _ = _
      rw [ih, List.append_assoc, Bool.true_and]

/-- A container is printed as its contents are. -/
theorem printContainer_ends {print : Text → Reader → Walk (Ending Text)} {type : DataType} {item : Value}
    {opening closing : Text} (typed : item.dataType = type)
    (inner : Ends (print (indent ++ octets "  ") item.contents)
      (· = rendered doubleToString (indent ++ octets "  ") item.contents))
    (leaves : item.leaves = leavesOf item.contents)
    (segments : (item.segments doubleToString indent).flatMap Segment.text = (indent ++ opening) ++
      ((segmentsOf doubleToString (indent ++ octets "  ") item.contents).flatMap Segment.text ++ closing)) :
    Ends (Message.printContainer print type opening closing indent (item :: rest) output)
      (· = (printValue doubleToString indent output item).elim (.leave .aborted) (.again rest)) := by
  unfold Message.printContainer printValue
  rw [popContainer, if_pos typed, leaves, segments]
  refine Ends.bind inner ?_
  rintro ending rfl
  unfold rendered
  cases (leavesOf item.contents).all Basic.printed with
  | false => exact Ends.pure rfl
  | true => exact Ends.pure rfl

theorem toStringInternal_prints (enough : sizes reader < fuel) :
    Ends (Message.toStringInternal doubleToString fuel indent reader) (· = rendered doubleToString indent reader) := by
  induction fuel generalizing indent reader with
  | zero => omega
  | succ fuel ih =>
    have short := length_le_sizes reader
    rw [Message.toStringInternal]
    refine Ends.mono (whileMore_folds (printValue doubleToString indent) .aborted (by omega) ?_) ?_
    · intro item member rest output
      have inner (indent : Text) : Ends (Message.toStringInternal doubleToString fuel indent item.contents)
          (· = rendered doubleToString indent item.contents) := by
        have below := sizes_contents_lt item
        have inside := size_le_sizes member
        exact ih (by omega)
      cases item with
      | basic value =>
        cases value <;>
          exact Ends.pure (by simp [printValue, Value.leaves, Value.segments, Basic.printed, Basic.dataType])
      | array elements =>
        exact printContainer_ends rfl (inner _) rfl (by simp [Value.segments, Value.contents])
      | struct fields =>
        exact printContainer_ends rfl (inner _) rfl (by simp [Value.segments, Value.contents])
      | dictEntry key value =>
        exact printContainer_ends rfl (inner _) (leaves_of_container (by simp))
          (by simp [Value.segments, Value.contents, segmentsOf])
      | variant value =>
        exact printContainer_ends rfl (inner _) (leaves_of_container (by simp))
          (by simp [Value.segments, Value.contents, segmentsOf])
    · rintro ending rfl
      exact foldlM_printValue

/-- The text is that of the tree, in which every leaf is printed once, in order. -/
def Message.Prints (doubleToString : UInt64 → Text) (message : Message) : Prop :=
  (∃ enough, ∀ fuel, enough < fuel → Ends (message.toString doubleToString fuel)
    (· = .returned (message.headers ++
      (octets "\n" ++ (segmentsOf doubleToString [] message.arguments).flatMap Segment.text)))) ∧
  (segmentsOf doubleToString [] message.arguments).filterMap Segment.leaf = leavesOf message.arguments

/-- A message is printed unless a signature or a file descriptor is somewhere in it. -/
theorem Message.prints_iff (doubleToString : UInt64 → Text) (message : Message) :
    message.Prints doubleToString ↔
      ∀ leaf ∈ leavesOf message.arguments, leaf.dataType ≠ .signature ∧ leaf.dataType ≠ .unixFd := by
  have printed : (∀ leaf ∈ leavesOf message.arguments, leaf.dataType ≠ .signature ∧ leaf.dataType ≠ .unixFd) ↔
      (leavesOf message.arguments).all Basic.printed = true := by
    simp [Basic.printed]
  have ends {fuel : Nat} (enough : sizes message.arguments < fuel) :
      Ends (message.toString doubleToString fuel) (· =
        if (leavesOf message.arguments).all Basic.printed then .returned (message.headers ++
          (octets "\n" ++ (segmentsOf doubleToString [] message.arguments).flatMap Segment.text)) else .aborted) := by
    refine Ends.bind (toStringInternal_prints enough) ?_
    rintro ending rfl
    unfold rendered
    cases (leavesOf message.arguments).all Basic.printed with
    | false => exact Ends.pure rfl
    | true => exact Ends.pure rfl
  rw [printed]
  constructor
  · intro prints
    obtain ⟨⟨enough, prints⟩, -⟩ := prints
    obtain ⟨ending, passes, ended, -, same⟩ := prints (enough + sizes message.arguments + 1) (by omega)
    obtain ⟨other, more, again, -, other_same⟩ := @ends (enough + sizes message.arguments + 1) (by omega)
    rw [ended] at again
    cases again
    by_contra missing
    rw [same, if_neg missing] at other_same
    cases other_same
  · intro all
    refine ⟨⟨sizes message.arguments, fun fuel enough => ?_⟩, leavesOf_segmentsOf [] message.arguments⟩
    have ended := ends enough
    rw [if_pos all] at ended
    exact ended

/-- A signal of one signature aborts. -/
theorem Message.prints_signature :
    ¬Message.Prints (fun _ => [])
      ⟨"MESSAGE_SIGNAL", "", "/a", "a.B", "C", "", "", "g", 1, 0, [.basic (.signature "i")]⟩ := by
  intro prints
  obtain ⟨⟨enough, prints⟩, -⟩ := prints
  obtain ⟨ending, passes, ended, -, same⟩ := prints (enough + 1) (Nat.lt_succ_self enough)
  have aborted : some (Ending.aborted, []) = some (ending, passes) := ended
  cases aborted
  cases same

end Printing

end Libchrome.Dbus
