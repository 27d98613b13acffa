import Libchrome.Base.PickleCopies
import Libchrome.Base.PickleSafety

/-!
# Pickles that are copied and written

A run makes pickles, of nothing or of bytes, copies and assigns them and writes to those that own their block. The
header of such a pickle speaks of what was written as long as no copy is made of a pickle over bytes with a payload.
-/

namespace Libchrome.Base
open Library.Bytes

/-- The writes of a pickle. A `long` has 64 bits; a `float` or a `double` is handed over by its bits. -/
inductive WriteCall where
  | bool (value : Bool)
  | int (value : BitVec 32)
  | long (value : BitVec 64)
  | uint16 (value : BitVec 16)
  | uint32 (value : BitVec 32)
  | int64 (value : BitVec 64)
  | uint64 (value : BitVec 64)
  | sizeT (value : BitVec 64)
  | float (bits : BitVec 32)
  | double (bits : BitVec 64)
  | string (value : List Byte)
  | string16 (value : List (BitVec 16))
  | data (block : List Byte) (length : BitVec 32)
  | bytes (block : List Byte) (length : BitVec 32)
  | reserve (length : Nat)

namespace WriteCall
open Pickle

def exec (garbage : Nat → Nat → Byte) : WriteCall → Writer Bool
  | bool value => writeBool garbage value
  | int value => writeInt garbage value
  | long value => writePOD garbage 8 value.toNat
  | uint16 value => writeUInt16 garbage value
  | uint32 value => writeUInt32 garbage value
  | int64 value => writeInt64 garbage value
  | uint64 value => writeUInt64 garbage value
  | sizeT value => writeSizeT garbage value
  | float bits => writePOD garbage 4 bits.toNat
  | double bits => writePOD garbage 8 bits.toNat
  | string value => writeString garbage value
  | string16 value => writeString16 garbage value
  | data block length => writeData garbage block length
  | bytes block length => writeBytes garbage block length
  | reserve length => Pickle.reserve garbage length

/-- The field that `WriteBytes` makes. -/
def field (data : List Byte) (length : BitVec 32) : List Byte := padded (data.take (length.signExtend 64).toNat)

/-- The field of an integer of `count` bytes. -/
def pod (count value : Nat) : List Byte := padded (encode count value)

/-- What the call adds to the payload. -/
def appended : WriteCall → List Byte
  | bool value => pod 4 (if value then 1 else 0 : BitVec 32).toNat
  | int value => pod 4 value.toNat
  | long value => pod 8 value.toNat
  | uint16 value => pod 2 value.toNat
  | uint32 value => pod 4 value.toNat
  | int64 value => pod 8 value.toNat
  | uint64 value => pod 8 value.toNat
  | sizeT value => pod 8 value.toNat
  | float bits => pod 4 bits.toNat
  | double bits => pod 8 bits.toNat
  | string value => pod 4 (BitVec.ofNat 32 value.length).toNat ++ field value (BitVec.ofNat 32 value.length)
  | string16 value =>
    pod 4 (BitVec.ofNat 32 value.length).toNat ++ field (bytesOf16 value) (BitVec.ofNat 32 value.length * 2)
  | data block length => if length.toInt ≥ 0 then pod 4 length.toNat ++ field block length else []
  | bytes block length => field block length
  | reserve _ => []

end WriteCall

/-- What a program does with its pickles. -/
inductive PickleStep where
  | new (header_size : Nat)
  | ofData (data : List Byte) (data_len : BitVec 32)
  | copy (source : Nat)
  | assign (target source : Nat)
  | write (target : Nat) (call : WriteCall)

namespace PickleStep

/-- What the header promises of the arguments: the size of a header, whole blocks, and no writes to a pickle over
bytes. -/
def Promised (pickles : List Pickle) : PickleStep → Prop
  | new header_size => sizeofHeader ≤ header_size ∧ header_size ≤ kPayloadUnit
  | ofData data data_len => data.length = data_len.toNat
  | write target _ => ∀ pickle, pickles[target]? = some pickle → ¬ pickle.ReadOnly
  | _ => True

/-- The step copies no payload that its pickle does not own, and does not make one larger than the header can say. -/
def Tracks (pickles : List Pickle) : PickleStep → Prop
  | copy source => ∀ pickle, pickles[source]? = some pickle → pickle.ReadOnly → pickle.payload_size = 0
  | assign target source => target ≠ source →
      ∀ pickle, pickles[source]? = some pickle → pickle.ReadOnly → pickle.payload_size = 0
  | write target call => ∀ pickle, pickles[target]? = some pickle →
      pickle.payload_size + call.appended.length < 2 ^ 32
  | _ => True

/-- The pickles after a step; no result if it names a pickle there is not, or the program crashes. -/
def exec (garbage : Nat → Nat → Byte) (pickles : List Pickle) : PickleStep → Option (List Pickle)
  | new header_size => do return pickles ++ [← Pickle.new garbage header_size]
  | ofData data data_len => some (pickles ++ [Pickle.ofData data data_len])
  | copy source => do return pickles ++ [← Pickle.copy garbage (← pickles[source]?)]
  | assign target source => do
    let pickle ← pickles[target]?
    let other ← pickles[source]?
    -- Nothing happens to a pickle that is assigned to itself.
    if target = source then return pickles
    else return pickles.set target (← Pickle.assign garbage pickle other)
  | write target call => do
    let (_, later) ← call.exec garbage (← pickles[target]?)
    return pickles.set target later

end PickleStep

namespace Pickle
section Writing
variable (garbage : Nat → Nat → Byte)

/-- Whenever `writer` returns, it returns `result` and has appended `bytes`. -/
def Appended (writer : Writer Bool) (result : Bool) (bytes : List Byte) : Prop :=
  ∀ pickle header_size payload, Holds pickle header_size payload → ∀ returned later,
    writer pickle = some (returned, later) → returned = result ∧ Holds later header_size (payload ++ bytes)

variable {garbage}

theorem Appends.appended {writer : Writer Bool} {bytes : List Byte} (appends : Appends writer bytes) :
    Appended writer true bytes := by
  intro pickle header_size payload holds returned later wrote
  obtain ⟨done, same, held⟩ := appends pickle header_size payload holds
  rw [same] at wrote
  cases wrote
  exact ⟨rfl, held⟩

theorem Appended.andThen {first second : Writer Bool} {result : Bool} {front back : List Byte}
    (one : Appended first true front) (two : Appended second result back) :
    Appended (Pickle.andThen first second) result (front ++ back) := by
  intro pickle header_size payload holds returned later wrote
  obtain ⟨⟨done, middle⟩, wroteOne, wrote⟩ := Option.bind_eq_some_iff.mp wrote
  obtain ⟨rfl, held⟩ := one pickle header_size payload holds done middle wroteOne
  have both := two middle header_size _ held returned later wrote
  rwa [List.append_assoc] at both

theorem appended_writeBytes (data : List Byte) (length : BitVec 32) :
    Appended (writeBytes garbage data length) true (WriteCall.field data length) := by
  intro pickle header_size payload holds returned later wrote
  obtain ⟨⟨⟨⟩, done⟩, wrote, same⟩ := Option.bind_eq_some_iff.mp wrote
  cases same
  have fits : (length.signExtend 64).toNat ≤ data.length := by
    by_contra short
    unfold writeBytesCommon at wrote
    obtain ⟨⟨write, claimed⟩, -, stored⟩ := Option.bind_eq_some_iff.mp wrote
    dsimp only at stored
    rw [if_neg short] at stored
    cases stored
  obtain ⟨after, wroteWhole, held⟩ := holds.writeBytesCommon garbage (data.take (length.signExtend 64).toNat)
  rw [writeBytesCommon_take garbage fits, wroteWhole] at wrote
  cases wrote
  exact ⟨rfl, held⟩

theorem appended_reserve (length : Nat) : Appended (Pickle.reserve garbage length) true [] := by
  intro pickle header_size payload holds returned later made
  rw [List.append_nil]
  unfold Pickle.reserve at made
  dsimp only at made
  split at made
  next full =>
    obtain ⟨head, room, layout, size⟩ := holds
    obtain ⟨larger, more, resized, relaid, -⟩ := layout.resize garbage
      (pickle.capacity_after_header_ * 2 + (pickle.write_offset_ + align length 4)) (by omega)
    rw [resized] at made
    cases made
    exact ⟨rfl, head, more, relaid, size⟩
  next =>
    cases made
    exact ⟨rfl, holds⟩

theorem appended_exec (call : WriteCall) :
    ∃ result, Appended (call.exec garbage) result call.appended := by
  cases call with
  | bool value => exact ⟨true, (appends_writePOD garbage 4 _).appended⟩
  | int value => exact ⟨true, (appends_writePOD garbage 4 _).appended⟩
  | long value => exact ⟨true, (appends_writePOD garbage 8 _).appended⟩
  | uint16 value => exact ⟨true, (appends_writePOD garbage 2 _).appended⟩
  | uint32 value => exact ⟨true, (appends_writePOD garbage 4 _).appended⟩
  | int64 value => exact ⟨true, (appends_writePOD garbage 8 _).appended⟩
  | uint64 value => exact ⟨true, (appends_writePOD garbage 8 _).appended⟩
  | sizeT value => exact ⟨true, (appends_writePOD garbage 8 _).appended⟩
  | float bits => exact ⟨true, (appends_writePOD garbage 4 _).appended⟩
  | double bits => exact ⟨true, (appends_writePOD garbage 8 _).appended⟩
  | string value => exact ⟨true, (appends_writePOD garbage 4 _).appended.andThen (appended_writeBytes _ _)⟩
  | string16 value => exact ⟨true, (appends_writePOD garbage 4 _).appended.andThen (appended_writeBytes _ _)⟩
  | data block length =>
    rw [WriteCall.exec, WriteCall.appended, writeData]
    by_cases nonneg : length.toInt ≥ 0
    · rw [if_pos nonneg, if_pos nonneg]
      exact ⟨true, (appends_writePOD garbage 4 _).appended.andThen (appended_writeBytes _ _)⟩
    · rw [if_neg nonneg, if_neg nonneg]
      refine ⟨false, fun pickle header_size payload holds returned later same => ?_⟩
      cases same
      exact ⟨rfl, (List.append_nil payload).symm ▸ holds⟩
  | bytes block length => exact ⟨true, appended_writeBytes block length⟩
  | reserve length => exact ⟨true, appended_reserve length⟩

end Writing

/-- The header of a pickle that owns its block speaks of the whole payload; any other is over a whole block of
bytes. -/
inductive Sound : Pickle → Prop where
  | owned {pickle : Pickle} {header_size : Nat} {payload : List Byte} (holds : Holds pickle header_size payload)
      (small : payload.length < 2 ^ 32) : Sound pickle
  | borrowed (data : List Byte) (data_len : BitVec 32) (whole : data.length = data_len.toNat) :
      Sound (ofData data data_len)

section Holding
variable {pickle : Pickle} {header_size : Nat} {payload : List Byte}

section
variable (holds : Holds pickle header_size payload)
include holds

theorem Holds.writable : ¬ pickle.ReadOnly := by
  obtain ⟨head, room, layout, -⟩ := holds
  have aligned := layout.capacity_aligned
  unfold ReadOnly kCapacityReadOnly
  omega

theorem Holds.header_size_field :
    pickle.payload_size = payload.length % 2 ^ 32 := by
  obtain ⟨head, room, layout, -⟩ := holds
  rw [payload_size, layout.block]
  dsimp only
  rw [payloadSizeField, List.take_append_of_le_length layout.header_least, layout.size_field, decode_encode]
  rfl

theorem Holds.tracked_iff :
    pickle.Tracked ↔ payload.length < 2 ^ 32 := by
  have size := holds.header_size_field
  obtain ⟨head, room, layout, -⟩ := holds
  have offset := layout.write_offset
  have capacity := layout.capacity
  constructor
  · intro tracked
    have same := tracked.offset
    omega
  · intro small
    have whole := Nat.mod_eq_of_lt small
    exact ⟨by omega, by omega⟩

theorem Holds.contents (small : payload.length < 2 ^ 32) :
    pickle.contents = payload := by
  have size := holds.header_size_field
  rw [Nat.mod_eq_of_lt small] at size
  obtain ⟨head, room, layout, -⟩ := holds
  rw [Pickle.contents, size, Pickle.payload, layout.block, layout.header_size, Option.getD_some, List.drop_left,
    List.take_left]

end

end Holding

theorem Sound.least {pickle : Pickle} (sound : Sound pickle) {block : List Byte} (header : pickle.header_ = some block) :
    sizeofHeader ≤ pickle.header_size_ := by
  cases sound with
  | owned holds small =>
    obtain ⟨head, room, layout, -⟩ := holds
    exact layout.header_size ▸ layout.header_least
  | borrowed data data_len whole => exact (header_size_ofData (header ▸ Option.some_ne_none block)).2.2.1

theorem Sound.holds {pickle : Pickle} (sound : Sound pickle) (writable : ¬ pickle.ReadOnly) :
    ∃ header_size payload, Holds pickle header_size payload ∧ payload.length < 2 ^ 32 := by
  cases sound with
  | owned holds small => exact ⟨_, _, holds, small⟩
  | borrowed data data_len whole => exact absurd rfl writable

/-- A copy is sound unless the payload is not its source's own. -/
theorem Sound.copied {copied source : Pickle} {block : List Byte} (sound : Sound source)
    (header : source.header_ = some block) (copyOf : CopyOf copied source block)
    (owns : source.ReadOnly → source.payload_size = 0) : Sound copied := by
  cases sound with
  | owned holds small =>
    obtain ⟨head, room, layout, -⟩ := holds
    cases header.symm.trans layout.block
    obtain ⟨rest, copy⟩ := copyOf.layout layout.header_size layout.header_least layout.header_aligned
      layout.size_field small layout.write_offset layout.payload_aligned
    exact .owned ⟨head, rest, copy, rfl⟩ small
  | borrowed data data_len whole =>
    have accepted : (ofData data data_len).header_ ≠ none := header ▸ Option.some_ne_none block
    obtain ⟨same, total, least, aligned⟩ := header_size_ofData accepted
    cases header.symm.trans same
    have none : payloadSizeField block = 0 := by
      have empty := owns rfl
      rw [payload_size, same] at empty
      exact empty
    have length : (ofData block data_len).header_size_ = block.length := by
      rw [whole, ← total, none]
      rfl
    have size_field : block.take sizeofHeader = encode sizeofHeader 0 := by
      have field := encode_decode (block.take sizeofHeader)
      rw [List.length_take_of_le (length ▸ least)] at field
      rw [← field]
      exact congrArg (encode sizeofHeader) none
    have divided : CopyOf copied (ofData block data_len) (block ++ ([] ++ [])) := by
      simpa only [List.append_nil] using copyOf
    obtain ⟨rest, copy⟩ := divided.layout length (length ▸ least) (length ▸ aligned) size_field (by decide) rfl rfl
    exact .owned ⟨block, rest, copy, rfl⟩ (by decide)

/-- Only a pickle over bytes with a payload has an offset that does not say where the payload ends. -/
theorem Sound.offset_iff {pickle : Pickle} (sound : Sound pickle) :
    pickle.write_offset_ = pickle.payload_size ↔ (pickle.ReadOnly → pickle.payload_size = 0) := by
  cases sound with
  | owned holds small =>
    exact iff_of_true (holds.tracked_iff.mpr small).offset fun readOnly => absurd readOnly holds.writable
  | borrowed data data_len whole => exact ⟨fun same _ => same.symm, fun empty => (empty rfl).symm⟩

theorem Sound.tracked {pickle : Pickle} (sound : Sound pickle) (writable : ¬ pickle.ReadOnly) : pickle.Tracked := by
  cases sound with
  | owned holds small => exact holds.tracked_iff.mpr small
  | borrowed data data_len whole => exact absurd rfl writable

theorem CopyOf.writable {copied source : Pickle} {block : List Byte} (copyOf : CopyOf copied source block) :
    ¬ copied.ReadOnly := by
  have aligned := (align_payloadUnit (payloadSizeField block)).2
  unfold ReadOnly
  rw [copyOf.capacity]
  unfold kCapacityReadOnly
  omega

end Pickle

/-- Every pickle that owns its block is tracked. -/
def AllTracked (pickles : List Pickle) : Prop := ∀ pickle ∈ pickles, ¬ pickle.ReadOnly → pickle.Tracked

/-- What a step does to the payloads: a copy has its source's payload, a write leaves what is there and appends to it,
and no other pickle changes. -/
def PickleStep.Effect (before after : List Pickle) : PickleStep → Prop
  | new _ => ∃ pickle, after = before ++ [pickle] ∧ pickle.contents = []
  | ofData data data_len => after = before ++ [Pickle.ofData data data_len]
  | copy source => ∃ pickle copied, before[source]? = some pickle ∧ after = before ++ [copied] ∧
      copied.contents = pickle.contents
  | assign target source => ∃ pickle assigned, before[source]? = some pickle ∧ after = before.set target assigned ∧
      assigned.contents = pickle.contents
  | write target call => ∃ pickle later, before[target]? = some pickle ∧ after = before.set target later ∧
      later.contents = pickle.contents ++ call.appended

/-- What is proved of each step, of the pickle it makes or changes. -/
structure Made (Condition : Prop) (pickle : Pickle) : Prop where
  writable : ¬ pickle.ReadOnly
  tracked_iff : pickle.Tracked ↔ Condition
  sound : Condition → pickle.Sound

section Steps
open Pickle PickleStep
variable {garbage : Nat → Nat → Byte} {pickles later : List Pickle} {Condition : Prop}

theorem made_copy {source copied : Pickle} {block : List Byte} (sound : source.Sound)
    (header : source.header_ = some block) (copyOf : CopyOf copied source block) :
    Made (source.ReadOnly → source.payload_size = 0) copied :=
  ⟨copyOf.writable, (copyOf.tracked_iff header (sound.least header)).trans sound.offset_iff,
    sound.copied header copyOf⟩

theorem made_holds {pickle : Pickle} {header_size : Nat} {payload : List Byte}
    (holds : Holds pickle header_size payload) : Made (payload.length < 2 ^ 32) pickle :=
  ⟨holds.writable, holds.tracked_iff, .owned holds⟩

theorem made_new {pickle : Pickle} {header_size : Nat} (least : sizeofHeader ≤ header_size)
    (made : Pickle.new garbage header_size = some pickle) : Holds pickle (align header_size 4) [] := by
  obtain ⟨fresh, same, holds⟩ := new_holds garbage least
  cases made.symm.trans same
  exact holds

section
variable (sound : ∀ pickle ∈ pickles, pickle.Sound)
include sound

theorem append_keeps {pickle : Pickle} (made : Made Condition pickle) :
    (AllTracked (pickles ++ [pickle]) ↔ Condition) ∧
      (Condition → ∀ other ∈ pickles ++ [pickle], other.Sound) := by
  constructor
  · constructor
    · intro all
      exact made.tracked_iff.mp (all pickle (by simp) made.writable)
    · intro met other member
      rcases List.mem_append.mp member with old | new
      · exact (sound other old).tracked
      · exact fun _ => List.mem_singleton.mp new ▸ made.tracked_iff.mpr met
  · intro met other member
    rcases List.mem_append.mp member with old | new
    · exact sound other old
    · rw [List.mem_singleton.mp new]
      exact made.sound met

theorem set_keeps {target : Nat} {old pickle : Pickle}
    (there : pickles[target]? = some old) (made : Made Condition pickle) :
    (AllTracked (pickles.set target pickle) ↔ Condition) ∧
      (Condition → ∀ other ∈ pickles.set target pickle, other.Sound) := by
  have bound : target < pickles.length := (List.getElem?_eq_some_iff.mp there).1
  constructor
  · constructor
    · intro all
      exact made.tracked_iff.mp (all pickle (List.mem_set bound pickle) made.writable)
    · intro met other member
      rcases List.mem_or_eq_of_mem_set member with old | new
      · exact (sound other old).tracked
      · exact fun _ => new ▸ made.tracked_iff.mpr met
  · intro met other member
    rcases List.mem_or_eq_of_mem_set member with old | new
    · exact sound other old
    · rw [new]
      exact made.sound met

/-- A step keeps the headers true exactly if it copies no payload of somebody else's and stays below the largest size,
and it then changes the payloads as it should. -/
theorem step_keeps {step : PickleStep} (promised : step.Promised pickles)
    (moved : step.exec garbage pickles = some later) :
    (AllTracked later ↔ step.Tracks pickles) ∧
      (step.Tracks pickles → (∀ pickle ∈ later, pickle.Sound) ∧ step.Effect pickles later) := by
  have member : ∀ {index : Nat} {pickle : Pickle}, pickles[index]? = some pickle → pickle.Sound :=
    fun there => sound _ (List.mem_of_getElem? there)
  have only : ∀ {index : Nat} {pickle : Pickle} {Property : Pickle → Prop}, pickles[index]? = some pickle →
      ((∀ other, pickles[index]? = some other → Property other) ↔ Property pickle) := by
    intro index pickle Property there
    exact ⟨fun all => all pickle there, fun held other same => by cases there.symm.trans same; exact held⟩
  cases step with
  | new header_size =>
    rw [PickleStep.exec] at moved
    obtain ⟨pickle, created, same⟩ := Option.bind_eq_some_iff.mp moved
    cases same
    have holds := made_new promised.1 created
    have keeps := append_keeps sound (made_holds holds)
    have small : ([] : List Byte).length < 2 ^ 32 := by decide
    exact ⟨iff_of_true (keeps.1.mpr small) trivial,
      fun _ => ⟨keeps.2 small, pickle, rfl, holds.contents small⟩⟩
  | ofData data data_len =>
    cases moved
    have all : ∀ pickle ∈ pickles ++ [Pickle.ofData data data_len], pickle.Sound := by
      intro other member
      rcases List.mem_append.mp member with old | new
      · exact sound other old
      · rw [List.mem_singleton.mp new]
        exact .borrowed data data_len promised
    exact ⟨iff_of_true (fun other there => (all other there).tracked) trivial, fun _ => ⟨all, rfl⟩⟩
  | copy source =>
    rw [PickleStep.exec] at moved
    obtain ⟨pickle, there, moved⟩ := Option.bind_eq_some_iff.mp moved
    obtain ⟨copied, made, same⟩ := Option.bind_eq_some_iff.mp moved
    cases same
    obtain ⟨block, header, copyOf⟩ := copyOf_copy garbage made
    have keeps := append_keeps sound (made_copy (member there) header copyOf)
    rw [Tracks, only there]
    exact ⟨keeps.1, fun met => ⟨keeps.2 met, pickle, copied, there, rfl,
      copyOf.contents header ((member there).least header)⟩⟩
  | assign target source =>
    rw [PickleStep.exec] at moved
    rw [Tracks]
    obtain ⟨old, here, moved⟩ := Option.bind_eq_some_iff.mp moved
    obtain ⟨pickle, there, moved⟩ := Option.bind_eq_some_iff.mp moved
    by_cases itself : target = source
    · rw [if_pos itself] at moved
      cases moved
      cases itself
      refine ⟨iff_of_true (fun other there => (sound other there).tracked) fun different => absurd rfl different,
        fun _ => ⟨sound, pickle, pickle, there, ?_, rfl⟩⟩
      obtain ⟨bound, value⟩ := List.getElem?_eq_some_iff.mp there
      rw [← value, List.set_getElem_self]
    · rw [if_neg itself] at moved
      obtain ⟨assigned, made, same⟩ := Option.bind_eq_some_iff.mp moved
      cases same
      obtain ⟨block, header, copyOf⟩ := copyOf_assign garbage made
      have keeps := set_keeps sound here (made_copy (member there) header copyOf)
      rw [only there, imp_iff_right itself]
      exact ⟨keeps.1, fun met => ⟨keeps.2 met, pickle, assigned, there, rfl,
        copyOf.contents header ((member there).least header)⟩⟩
  | write target call =>
    rw [PickleStep.exec] at moved
    obtain ⟨pickle, there, moved⟩ := Option.bind_eq_some_iff.mp moved
    obtain ⟨⟨returned, changed⟩, wrote, same⟩ := Option.bind_eq_some_iff.mp moved
    cases same
    obtain ⟨header_size, payload, holds, small⟩ := (member there).holds (promised pickle there)
    obtain ⟨result, appended⟩ := appended_exec call
    have held := (appended pickle header_size payload holds returned changed wrote).2
    have keeps := set_keeps sound there (made_holds held)
    have size := holds.header_size_field
    rw [Nat.mod_eq_of_lt small] at size
    rw [List.length_append, ← size] at keeps
    rw [Tracks, only there]
    refine ⟨keeps.1, fun met => ⟨keeps.2 met, pickle, changed, there, rfl, ?_⟩⟩
    rw [holds.contents small]
    exact held.contents (by rwa [List.length_append, ← size])

end

end Steps

open PickleStep

/-- In every run that keeps to the promises and the condition, the header of each pickle that owns its block speaks of
what was written. The next step keeps that exactly if it meets the condition, and then a copy has its source's payload
and a write appends. -/
theorem pickles_tracked {garbage : Nat → Nat → Byte} {pickles : List Pickle}
    (reached : Library.Reaches (exec garbage)
      (fun pickles step => step.Promised pickles ∧ step.Tracks pickles) [] pickles) :
    AllTracked pickles ∧
      ∀ (step : PickleStep) (later : List Pickle), step.Promised pickles → step.exec garbage pickles = some later →
        (AllTracked later ↔ step.Tracks pickles) ∧ (step.Tracks pickles → step.Effect pickles later) := by
  have sound : ∀ pickle ∈ pickles, pickle.Sound := by
    refine reached.invariant (fun pickles => ∀ pickle ∈ pickles, pickle.Sound) nofun ?_
    intro before step after sound met moved
    exact ((step_keeps sound met.1 moved).2 met.2).1
  refine ⟨fun pickle there => (sound pickle there).tracked, fun step later promised moved => ?_⟩
  have keeps := step_keeps sound promised moved
  exact ⟨keeps.1, fun met => (keeps.2 met).2⟩

theorem exec_copy {garbage : Nat → Nat → Byte} {pickles : List Pickle} {source : Nat} {pickle copied : Pickle}
    (there : pickles[source]? = some pickle) (made : Pickle.copy garbage pickle = some copied) :
    (copy source).exec garbage pickles = some (pickles ++ [copied]) := by
  rw [PickleStep.exec]
  exact Option.bind_eq_some_iff.mpr ⟨pickle, there, Option.bind_eq_some_iff.mpr ⟨copied, made, rfl⟩⟩

theorem pickles_tracked_copied : ∃ pickles : List Pickle, pickles.length = 2 ∧ AllTracked pickles := by
  obtain ⟨copied, made⟩ : ∃ copied, Pickle.copy (fun _ _ => 0) (Pickle.ofData [0, 0, 0, 0] 4) = some copied := ⟨_, rfl⟩
  have promised : (ofData [0, 0, 0, 0] 4).Promised [] := rfl
  have empty : (copy 0).Tracks [Pickle.ofData [0, 0, 0, 0] 4] := by
    intro pickle there _
    cases there
    decide
  have copies : (copy 0).Promised [Pickle.ofData [0, 0, 0, 0] 4] := trivial
  exact ⟨_, rfl, (pickles_tracked (.next (.next .start ⟨promised, trivial⟩ rfl) ⟨copies, empty⟩
    (exec_copy (by rfl) made))).1⟩

/-- A copy of a pickle over bytes, with four of payload, would write its next field over them. -/
theorem not_pickles_tracked :
    ¬ ∀ (garbage : Nat → Nat → Byte) (pickles : List Pickle),
      Library.Reaches (exec garbage) (fun pickles step => step.Promised pickles) [] pickles → AllTracked pickles := by
  intro claim
  obtain ⟨copied, made⟩ :
      ∃ copied, Pickle.copy (fun _ _ => 0) (Pickle.ofData [4, 0, 0, 0, 1, 2, 3, 4] 8) = some copied := ⟨_, rfl⟩
  obtain ⟨block, header, copyOf⟩ := Pickle.copyOf_copy _ made
  have promised : (ofData [4, 0, 0, 0, 1, 2, 3, 4] 8).Promised [] := rfl
  have copies : (copy 0).Promised [Pickle.ofData [4, 0, 0, 0, 1, 2, 3, 4] 8] := trivial
  have tracked := claim _ _ (.next (.next .start promised rfl) copies (exec_copy (by rfl) made)) copied
    (List.mem_append_right _ (List.mem_singleton_self copied)) copyOf.writable
  exact absurd ((copyOf.tracked_iff header (by decide)).mp tracked) (by decide)

end Libchrome.Base
