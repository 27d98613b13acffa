import Libchrome.Library.Machine
import Libchrome.Library.Ring
import Mathlib.Data.BitVec
import Mathlib.Data.List.Perm.Basic

/-!
# `TraceBufferRingBuffer`

The ring of trace buffer chunks (`trace_buffer.cc`). A chunk that has been taken is written by its owner, who gets a
handle for each event, and is returned once. The functions are `none` where a check fails or an access is out of bounds.
-/

namespace Libchrome.Base.TraceEvent

open Library

structure TraceBufferChunk where
  next_free_ : Nat
  seq_ : BitVec 32
  deriving DecidableEq, Repr

def kTraceBufferChunkSize : Nat := 64

def TraceBufferChunk.new (seq : BitVec 32) : TraceBufferChunk := ⟨0, seq⟩

def TraceBufferChunk.reset (new_seq : BitVec 32) (_ : TraceBufferChunk) : TraceBufferChunk := ⟨0, new_seq⟩

structure TraceEventHandle where
  chunk_seq : BitVec 32
  chunk_index : BitVec 26
  event_index : BitVec 6
  deriving DecidableEq, Repr

/-- `MakeHandle`, which has both indices in 16 bits first. -/
def makeHandle (chunk_seq : BitVec 32) (chunk_index event_index : Nat) : TraceEventHandle where
  chunk_seq := chunk_seq
  chunk_index := (BitVec.ofNat 16 chunk_index).setWidth 26
  event_index := (BitVec.ofNat 16 event_index).setWidth 6

structure TraceBufferRingBuffer where
  max_chunks_ : Nat
  chunks_ : List (Option TraceBufferChunk)
  recyclable_chunks_queue_ : List Nat
  queue_head_ : Nat
  queue_tail_ : Nat
  current_iteration_index_ : Nat
  current_chunk_seq_ : BitVec 32
  deriving DecidableEq, Repr

namespace TraceBufferRingBuffer

/-- The constructor; the last cell of the queue has no value yet. -/
def new (max_chunks unset : Nat) : TraceBufferRingBuffer where
  max_chunks_ := max_chunks
  chunks_ := []
  recyclable_chunks_queue_ := List.range max_chunks ++ [unset]
  queue_head_ := 0
  queue_tail_ := max_chunks
  current_iteration_index_ := 0
  current_chunk_seq_ := 1

variable (buffer : TraceBufferRingBuffer)

def queueCapacity : Nat := buffer.max_chunks_ + 1

def nextQueueIndex (index : Nat) : Nat := if index + 1 ≥ buffer.queueCapacity then 0 else index + 1

def queueIsEmpty : Bool := buffer.queue_head_ = buffer.queue_tail_

def queueSize : Nat :=
  if buffer.queue_tail_ > buffer.queue_head_ then buffer.queue_tail_ - buffer.queue_head_
  else buffer.queue_tail_ + buffer.queueCapacity - buffer.queue_head_

def queueIsFull : Bool := buffer.queueSize = buffer.queueCapacity - 1

/-- `GetChunk`: the index, the chunk and the buffer. -/
def getChunk : Option (Nat × TraceBufferChunk × TraceBufferRingBuffer) :=
  if buffer.queueIsEmpty then none
  else buffer.recyclable_chunks_queue_[buffer.queue_head_]?.bind fun index =>
    let head := buffer.nextQueueIndex buffer.queue_head_
    let chunks := buffer.chunks_ ++ List.replicate (index + 1 - buffer.chunks_.length) none
    chunks[index]?.map fun slot =>
      let chunk := match slot with
        | some chunk => chunk.reset buffer.current_chunk_seq_
        | none => .new buffer.current_chunk_seq_
      (index, chunk, { buffer with
        queue_head_ := head
        current_iteration_index_ := head
        chunks_ := chunks.set index none
        current_chunk_seq_ := buffer.current_chunk_seq_ + 1 })

def returnChunk (index : Nat) (chunk : TraceBufferChunk) : Option TraceBufferRingBuffer :=
  if buffer.queueIsFull = false ∧ buffer.chunks_[index]? = some none ∧
      buffer.queue_tail_ < buffer.recyclable_chunks_queue_.length then
    some { buffer with
      chunks_ := buffer.chunks_.set index (some chunk)
      recyclable_chunks_queue_ := buffer.recyclable_chunks_queue_.set buffer.queue_tail_ index
      queue_tail_ := buffer.nextQueueIndex buffer.queue_tail_ }
  else none

/-- The chunk of the event and its place there. -/
def getEventByHandle (handle : TraceEventHandle) : Option (TraceBufferChunk × Nat) :=
  match buffer.chunks_[handle.chunk_index.toNat]? with
  | some (some chunk) => if chunk.seq_ ≠ handle.chunk_seq then none else some (chunk, handle.event_index.toNat)
  | _ => none

/-- The loop of `NextChunk`; `none` also where it does not end within `fuel` rounds. -/
def nextChunkFrom : Nat → TraceBufferRingBuffer → Option (Option TraceBufferChunk × TraceBufferRingBuffer)
  | 0, _ => none
  | fuel + 1, buffer =>
    if buffer.current_iteration_index_ = buffer.queue_tail_ then some (none, buffer)
    else buffer.recyclable_chunks_queue_[buffer.current_iteration_index_]?.bind fun chunk_index =>
      let buffer := { buffer with
        current_iteration_index_ := buffer.nextQueueIndex buffer.current_iteration_index_ }
      match buffer.chunks_[chunk_index]? with
      | none => nextChunkFrom fuel buffer
      | some none => none
      | some (some chunk) => some (some chunk, buffer)

def nextChunk : Option (Option TraceBufferChunk × TraceBufferRingBuffer) :=
  if buffer.chunks_ = [] then some (none, buffer) else nextChunkFrom buffer.queueCapacity buffer

/-- `NextChunk` called until it returns `NULL`, at most `fuel` times. -/
def nextChunks : Nat → TraceBufferRingBuffer → Option (List TraceBufferChunk × TraceBufferRingBuffer)
  | 0, _ => none
  | fuel + 1, buffer =>
    buffer.nextChunk.bind fun
      | (none, buffer) => some ([], buffer)
      | (some chunk, buffer) => (nextChunks fuel buffer).map fun left => (chunk :: left.1, left.2)

end TraceBufferRingBuffer

/-- A handle, with the index of its chunk, how often that index had been taken then, and the place of its event. -/
structure Issued where
  handle : TraceEventHandle
  index : Nat
  generation : Nat
  event : Nat
  deriving DecidableEq, Repr

/-- A buffer among those who use it. -/
structure Setting where
  buffer : TraceBufferRingBuffer
  inFlight : List (Nat × TraceBufferChunk) := []
  /-- The chunks that were returned and not taken again, the oldest first. -/
  returned : List Nat := []
  /-- The chunks that were taken, the last one first. -/
  taken : List Nat := []
  /-- What `NextChunk` returned since the last chunk was taken. -/
  visited : List TraceBufferChunk := []
  issued : List Issued := []
  /-- The number of calls of `GetChunk` and `ReturnChunk`. -/
  calls : Nat := 0
  deriving DecidableEq, Repr

inductive Call where
  | getChunk
  /-- `AddTraceEvent` on a chunk in flight, and the handle for the event. -/
  | addTraceEvent (index : Nat)
  | returnChunk (index : Nat)
  | nextChunk
  deriving DecidableEq, Repr

namespace Setting

/-- The chunk in flight of an index. -/
def flying (setting : Setting) (index : Nat) : Option TraceBufferChunk :=
  (setting.inFlight.find? (·.1 = index)).map (·.2)

def Legal (setting : Setting) : Call → Prop
  | .getChunk => setting.buffer.queueIsEmpty = false ∧ setting.calls + 1 < 2 ^ 32
  | .addTraceEvent index => (setting.flying index).any (·.next_free_ < kTraceBufferChunkSize)
  | .returnChunk index => (setting.flying index).isSome ∧ setting.calls + 1 < 2 ^ 32
  | .nextChunk => True

instance decidableLegal (setting : Setting) : (call : Call) → Decidable (setting.Legal call)
  | .getChunk => inferInstanceAs (Decidable (_ ∧ _))
  | .addTraceEvent _ => inferInstanceAs (Decidable (_ = true))
  | .returnChunk _ => inferInstanceAs (Decidable (_ ∧ _))
  | .nextChunk => .isTrue trivial

def step (setting : Setting) : Call → Option Setting
  | .getChunk => setting.buffer.getChunk.map fun
    | (index, chunk, buffer) =>
      { setting with
        buffer := buffer
        inFlight := (index, chunk) :: setting.inFlight
        returned := setting.returned.erase index
        taken := index :: setting.taken
        visited := []
        calls := setting.calls + 1 }
  | .addTraceEvent index => (setting.flying index).map fun chunk =>
    let added := { chunk with next_free_ := chunk.next_free_ + 1 }
    { setting with
      inFlight := setting.inFlight.map fun flight => if flight.1 = index then (index, added) else flight
      issued := ⟨makeHandle chunk.seq_ index chunk.next_free_, index, setting.taken.count index, chunk.next_free_⟩ ::
        setting.issued }
  | .returnChunk index => (setting.flying index).bind fun chunk =>
    (setting.buffer.returnChunk index chunk).map fun buffer =>
      { setting with
        buffer := buffer
        inFlight := setting.inFlight.filter (·.1 ≠ index)
        returned := setting.returned ++ [index]
        calls := setting.calls + 1 }
  | .nextChunk => setting.buffer.nextChunk.map fun next =>
    { setting with
      buffer := next.2
      visited := setting.visited ++ next.1.toList }

end Setting

/-- The indices in the queue, from its head to its tail. -/
def TraceBufferRingBuffer.queued (buffer : TraceBufferRingBuffer) : List Nat :=
  Ring.window buffer.recyclable_chunks_queue_ buffer.queue_head_
    ((buffer.queue_tail_ + buffer.queueCapacity - buffer.queue_head_) % buffer.queueCapacity)

/-- What the ring is to guarantee. -/
structure Correct (setting : Setting) : Prop where
  /-- The queue has each chunk that is not in flight once. -/
  queue : ∀ index, setting.buffer.queued.count index =
    if index < setting.buffer.max_chunks_ ∧ setting.flying index = none then 1 else 0
  /-- A handle finds its own event, and only in a chunk that was not taken again. -/
  handles : ∀ issued ∈ setting.issued, ∀ event, setting.buffer.getEventByHandle issued.handle = some event →
    setting.taken.count issued.index = issued.generation ∧ event.2 = issued.event
  /-- `NextChunk` goes on to return the chunks that were returned, each once and the oldest first, and then stops. -/
  iteration : ∃ chunks final, setting.buffer.nextChunks setting.buffer.queueCapacity = some (chunks, final) ∧
    setting.returned.Nodup ∧
    (setting.visited ++ chunks).map some = setting.returned.map (setting.buffer.chunks_.getD · none) ∧
    final.nextChunk = some (none, final)
  /-- No check fails, and no access is out of bounds. -/
  progress : ∀ call, setting.Legal call → (setting.step call).isSome

/-! ### Positions in the queue -/

namespace TraceBufferRingBuffer

variable {buffer : TraceBufferRingBuffer}

theorem nextQueueIndex_mod (place : Nat) :
    buffer.nextQueueIndex (place % buffer.queueCapacity) = (place + 1) % buffer.queueCapacity := by
  have below : place % buffer.queueCapacity < buffer.queueCapacity := Nat.mod_lt _ (Nat.succ_pos _)
  rw [nextQueueIndex, Nat.add_mod place 1]
  split
  next last =>
    have whole : place % buffer.queueCapacity + 1 = buffer.queueCapacity := Nat.le_antisymm below last
    rw [Nat.add_mod_eq_add_mod_left _ (Nat.mod_mod 1 _), whole, Nat.mod_self]
  next more =>
    rw [Nat.add_mod_eq_add_mod_left _ (Nat.mod_mod 1 _), Nat.mod_eq_of_lt (Nat.lt_of_not_le more)]

theorem mod_ne_of_lt {place count : Nat} (some_ : 0 < count) (room : count < buffer.queueCapacity) :
    place % buffer.queueCapacity ≠ (place + count) % buffer.queueCapacity := by
  intro same
  have equal : 0 % buffer.queueCapacity = count % buffer.queueCapacity := Nat.ModEq.add_left_cancel' place same
  rw [Nat.zero_mod, Nat.mod_eq_of_lt room] at equal
  exact Nat.ne_of_lt some_ equal

theorem distance_eq {head count : Nat} (inside : head < buffer.queueCapacity) (room : count < buffer.queueCapacity) :
    ((head + count) % buffer.queueCapacity + buffer.queueCapacity - head) % buffer.queueCapacity = count := by
  by_cases wraps : head + count < buffer.queueCapacity
  · have around : head + count + buffer.queueCapacity - head = count + buffer.queueCapacity := by omega
    rw [Nat.mod_eq_of_lt wraps, around, Nat.add_mod_right, Nat.mod_eq_of_lt room]
  · have wrapped : (head + count) % buffer.queueCapacity = head + count - buffer.queueCapacity := by
      rw [Nat.mod_eq_sub_mod (Nat.le_of_not_lt wraps), Nat.mod_eq_of_lt (by omega)]
    rw [wrapped, Nat.sub_add_cancel (Nat.le_of_not_lt wraps), Nat.add_sub_cancel_left, Nat.mod_eq_of_lt room]

theorem queueIsFull_eq {count : Nat} (inside : buffer.queue_head_ < buffer.queueCapacity)
    (room : count < buffer.queueCapacity - 1)
    (tail : buffer.queue_tail_ = (buffer.queue_head_ + count) % buffer.queueCapacity) : buffer.queueIsFull = false := by
  rw [queueIsFull, decide_eq_false_iff_not, queueSize, tail]
  by_cases wraps : buffer.queue_head_ + count < buffer.queueCapacity
  · rw [Nat.mod_eq_of_lt wraps]
    split <;> omega
  · have wrapped : (buffer.queue_head_ + count) % buffer.queueCapacity =
        buffer.queue_head_ + count - buffer.queueCapacity := by
      rw [Nat.mod_eq_sub_mod (Nat.le_of_not_lt wraps), Nat.mod_eq_of_lt (by omega)]
    rw [wrapped]
    split <;> omega

/-! ### The loop of `NextChunk` -/

/-- The iterator stands before `count` cells of the queue. -/
structure Standing (buffer : TraceBufferRingBuffer) (place count : Nat) : Prop where
  cells : buffer.recyclable_chunks_queue_.length = buffer.queueCapacity
  room : count < buffer.queueCapacity
  current : buffer.current_iteration_index_ = place % buffer.queueCapacity
  tail : buffer.queue_tail_ = (place + count) % buffer.queueCapacity

def moved (place : Nat) (buffer : TraceBufferRingBuffer) : TraceBufferRingBuffer :=
  { buffer with current_iteration_index_ := place % buffer.queueCapacity }

theorem Standing.next {place count : Nat} (standing : buffer.Standing place (count + 1)) :
    (moved (place + 1) buffer).Standing (place + 1) count where
  cells := standing.cells
  room := Nat.lt_of_succ_lt standing.room
  current := rfl
  tail := standing.tail.trans (by rw [Nat.add_assoc, Nat.add_comm 1 count]; rfl)

theorem nextChunkFrom_zero {place : Nat} (fuel : Nat) (standing : buffer.Standing place 0) :
    nextChunkFrom (fuel + 1) buffer = some (none, buffer) := by
  rw [nextChunkFrom, if_pos (standing.current.trans standing.tail.symm)]

theorem nextChunkFrom_succ {place count fuel : Nat} (standing : buffer.Standing place (count + 1)) :
    nextChunkFrom (fuel + 1) buffer =
      match buffer.chunks_[Ring.at_ buffer.recyclable_chunks_queue_ place]? with
      | none => nextChunkFrom fuel (moved (place + 1) buffer)
      | some none => none
      | some (some chunk) => some (some chunk, moved (place + 1) buffer) := by
  have more : buffer.current_iteration_index_ ≠ buffer.queue_tail_ := by
    rw [standing.current, standing.tail]
    exact mod_ne_of_lt (Nat.succ_pos count) standing.room
  have inside : place % buffer.queueCapacity < buffer.recyclable_chunks_queue_.length := by
    rw [standing.cells]
    exact Nat.mod_lt place (Nat.succ_pos _)
  have read : buffer.recyclable_chunks_queue_[buffer.current_iteration_index_]? =
      some (Ring.at_ buffer.recyclable_chunks_queue_ place) := by
    rw [standing.current, Ring.getElem?_eq_at _ inside, ← standing.cells, Ring.at_mod]
  rw [nextChunkFrom, if_neg more, read, Option.bind_some, standing.current, nextQueueIndex_mod]
  rfl

/-- The cells before the iterator: first indices that were never taken, then those of chunks that were returned. -/
structure Ahead (buffer : TraceBufferRingBuffer) (place : Nat) (fresh returned : List Nat) : Prop where
  standing : buffer.Standing place (fresh.length + returned.length)
  window : Ring.window buffer.recyclable_chunks_queue_ place (fresh.length + returned.length) = fresh ++ returned
  untouched : ∀ index ∈ fresh, buffer.chunks_.length ≤ index
  full : ∀ index ∈ returned, ∃ chunk, buffer.chunks_[index]? = some (some chunk)

theorem Ahead.tail {place first : Nat} {fresh returned : List Nat}
    (ahead : buffer.Ahead place (first :: fresh) returned) :
    (moved (place + 1) buffer).Ahead (place + 1) fresh returned := by
  have count : (first :: fresh).length + returned.length = fresh.length + returned.length + 1 := by
    rw [List.length_cons, Nat.add_right_comm]
  have window := ahead.window
  have standing := ahead.standing
  rw [count, Ring.window_cons, List.cons_append, List.cons.injEq] at window
  rw [count] at standing
  exact {
    standing := standing.next
    window := window.2
    untouched := fun index member => ahead.untouched index (List.mem_cons_of_mem first member)
    full := ahead.full }

/-- The loop skips what was never taken. -/
theorem Ahead.skip {place : Nat} {fresh returned : List Nat} (ahead : buffer.Ahead place fresh returned) (fuel : Nat) :
    nextChunkFrom (fresh.length + fuel) buffer = nextChunkFrom fuel (moved (place + fresh.length) buffer) ∧
      (moved (place + fresh.length) buffer).Ahead (place + fresh.length) [] returned := by
  induction fresh generalizing buffer place with
  | nil =>
    have same : moved place buffer = buffer := by rw [moved, ← ahead.standing.current]
    rw [List.length_nil, Nat.zero_add, Nat.add_zero, same]
    exact ⟨rfl, ahead⟩
  | cons first fresh ih =>
    have count : (first :: fresh).length + returned.length = fresh.length + returned.length + 1 := by
      rw [List.length_cons, Nat.add_right_comm]
    have rounds : (first :: fresh).length + fuel = fresh.length + fuel + 1 := by
      rw [List.length_cons, Nat.add_right_comm]
    have places : place + (first :: fresh).length = place + 1 + fresh.length := by
      rw [List.length_cons, Nat.add_assoc, Nat.add_comm 1]
    have window := ahead.window
    have standing := ahead.standing
    rw [count, Ring.window_cons, List.cons_append, List.cons.injEq] at window
    rw [count] at standing
    have untouched : buffer.chunks_[first]? = none :=
      List.getElem?_eq_none (ahead.untouched first List.mem_cons_self)
    have rest := ih ahead.tail
    rw [rounds, places, nextChunkFrom_succ standing, window.1, untouched]
    exact rest

theorem Ahead.next {place index : Nat} {returned : List Nat} (ahead : buffer.Ahead place [] (index :: returned)) :
    (∃ chunk, buffer.chunks_[index]? = some (some chunk) ∧
      ∀ fuel, nextChunkFrom (fuel + 1) buffer = some (some chunk, moved (place + 1) buffer)) ∧
    (moved (place + 1) buffer).Ahead (place + 1) [] returned := by
  obtain ⟨chunk, slot⟩ := ahead.full index List.mem_cons_self
  have window := ahead.window
  have standing := ahead.standing
  rw [List.length_nil, Nat.zero_add, List.length_cons] at standing
  rw [List.length_nil, Nat.zero_add, List.length_cons, Ring.window_cons, List.nil_append, List.cons.injEq] at window
  constructor
  · refine ⟨chunk, slot, fun fuel => ?_⟩
    rw [nextChunkFrom_succ standing, window.1, slot]
  · exact {
      standing := by rw [List.length_nil, Nat.zero_add]; exact standing.next
      window := by rw [List.length_nil, Nat.zero_add, List.nil_append]; exact window.2
      untouched := fun _ member => absurd member List.not_mem_nil
      full := fun other member => ahead.full other (List.mem_cons_of_mem index member) }

/-- `NextChunk` returns the chunk that was returned first, or nothing. -/
theorem Ahead.nextChunk {place : Nat} {fresh returned : List Nat} (ahead : buffer.Ahead place fresh returned) :
    match returned with
    | [] => ∃ final, buffer.nextChunk = some (none, final) ∧ final.nextChunk = some (none, final) ∧
        (final = buffer ∨ final = moved (place + fresh.length) buffer)
    | index :: rest => ∃ chunk, buffer.chunks_[index]? = some (some chunk) ∧
        buffer.nextChunk = some (some chunk, moved (place + fresh.length + 1) buffer) ∧
        (moved (place + fresh.length + 1) buffer).Ahead (place + fresh.length + 1) [] rest := by
  have room := ahead.standing.room
  obtain ⟨fuel, enough⟩ := Nat.exists_eq_add_of_lt (Nat.lt_of_le_of_lt (Nat.le_add_right _ _) room)
  obtain ⟨skips, behind⟩ := ahead.skip (fuel + 1)
  have loop : nextChunkFrom buffer.queueCapacity buffer =
      nextChunkFrom (fuel + 1) (moved (place + fresh.length) buffer) := by
    rw [← skips, enough, Nat.add_assoc]
  cases returned with
  | nil =>
    have stop := nextChunkFrom_zero fuel behind.standing
    by_cases nothing : buffer.chunks_ = []
    · have ends : buffer.nextChunk = some (none, buffer) := if_pos nothing
      exact ⟨buffer, ends, ends, .inl rfl⟩
    · refine ⟨moved (place + fresh.length) buffer, ?_, ?_, .inr rfl⟩
      · rw [TraceBufferRingBuffer.nextChunk, if_neg nothing, loop, stop]
      · have again := nextChunkFrom_zero buffer.max_chunks_ behind.standing
        exact (if_neg nothing).trans again
  | cons index rest =>
    obtain ⟨⟨chunk, held, step⟩, left⟩ := behind.next
    have slot : buffer.chunks_[index]? = some (some chunk) := held
    refine ⟨chunk, slot, ?_, left⟩
    have some_ : buffer.chunks_ ≠ [] := by
      intro nothing
      rw [nothing] at slot
      cases slot
    rw [TraceBufferRingBuffer.nextChunk, if_neg some_, loop, step]
    rfl

/-- Called again and again, `NextChunk` returns the chunks that were returned, in order. -/
theorem Ahead.nextChunks {place : Nat} {fresh returned : List Nat} (ahead : buffer.Ahead place fresh returned)
    (fuel : Nat) (enough : returned.length < fuel) : ∃ chunks final, nextChunks fuel buffer = some (chunks, final) ∧
      chunks.map some = returned.map (buffer.chunks_.getD · none) ∧ final.nextChunk = some (none, final) := by
  induction returned generalizing buffer place fuel fresh with
  | nil =>
    obtain ⟨fuel, rfl⟩ := Nat.exists_eq_succ_of_ne_zero (Nat.ne_zero_of_lt enough)
    obtain ⟨final, ends, again, _⟩ := ahead.nextChunk
    exact ⟨[], final, by rw [TraceBufferRingBuffer.nextChunks, ends]; rfl, rfl, again⟩
  | cons index rest ih =>
    obtain ⟨fuel, rfl⟩ := Nat.exists_eq_succ_of_ne_zero (Nat.ne_zero_of_lt enough)
    obtain ⟨chunk, slot, step, left⟩ := ahead.nextChunk
    obtain ⟨chunks, final, run, same, again⟩ := ih left fuel (Nat.lt_of_succ_lt_succ enough)
    refine ⟨chunk :: chunks, final, ?_, ?_, again⟩
    · rw [TraceBufferRingBuffer.nextChunks, step, Option.bind_some]
      exact Option.map_eq_some_iff.mpr ⟨(chunks, final), run, rfl⟩
    · have here : buffer.chunks_.getD index none = some chunk := by rw [List.getD_eq_getElem?_getD, slot]; rfl
      rw [List.map_cons, List.map_cons, here, same]
      rfl

end TraceBufferRingBuffer

/-! ### Sequence numbers -/

/-- The sequence number of a chunk counts the chunks that were taken up to the last time it was. -/
def Stamped (taken : List Nat) (index : Nat) (seq : BitVec 32) : Prop :=
  ∃ newer older, taken = newer ++ index :: older ∧ index ∉ newer ∧ seq = BitVec.ofNat 32 (older.length + 1)

/-- A handle has the sequence number that its chunk had then. -/
def Given (taken : List Nat) (issued : Issued) : Prop :=
  (∃ newer older, taken = newer ++ issued.index :: older ∧
    issued.handle.chunk_seq = BitVec.ofNat 32 (older.length + 1) ∧ issued.generation = older.count issued.index + 1) ∧
  issued.handle.event_index.toNat = issued.event

theorem Stamped.cons {taken : List Nat} {index first : Nat} {seq : BitVec 32} (stamped : Stamped taken index seq)
    (other : index ≠ first) : Stamped (first :: taken) index seq := by
  obtain ⟨newer, older, rfl, absent, same⟩ := stamped
  exact ⟨first :: newer, older, rfl, List.not_mem_cons_of_ne_of_not_mem other absent, same⟩

theorem Given.cons {taken : List Nat} {issued : Issued} (given : Given taken issued) (first : Nat) :
    Given (first :: taken) issued := by
  obtain ⟨⟨newer, older, rfl, same⟩, event⟩ := given
  exact ⟨⟨first :: newer, older, rfl, same⟩, event⟩

/-- Numbers of 32 bits tell all chunks that were taken from each other. -/
theorem Given.count_eq {taken : List Nat} {issued : Issued} {index : Nat} {seq : BitVec 32}
    (few : taken.length < 2 ^ 32) (given : Given taken issued) (stamped : Stamped taken index seq)
    (same : seq = issued.handle.chunk_seq) : taken.count issued.index = issued.generation := by
  obtain ⟨⟨newer, older, split, number, generation⟩, _⟩ := given
  obtain ⟨newer', older', split', absent, number'⟩ := stamped
  have lengths := congrArg List.length split
  have lengths' := congrArg List.length split'
  rw [List.length_append, List.length_cons] at lengths lengths'
  have equal : older.length + 1 = older'.length + 1 := by
    have words := congrArg BitVec.toNat (number.symm.trans (same.symm.trans number'))
    rwa [BitVec.toNat_ofNat, BitVec.toNat_ofNat, Nat.mod_eq_of_lt (by omega), Nat.mod_eq_of_lt (by omega)] at words
  obtain ⟨rfl, back⟩ := List.append_inj (split.symm.trans split') (by omega)
  obtain ⟨rfl, rfl⟩ := List.cons.inj back
  rw [split, List.count_append, List.count_eq_zero.mpr absent, List.count_cons_self, Nat.zero_add, generation]

/-! ### The invariant -/

namespace Setting

/-- The indices that were never taken. -/
def fresh (setting : Setting) : List Nat :=
  List.range' setting.buffer.chunks_.length (setting.buffer.max_chunks_ - setting.buffer.chunks_.length)

/-- The queue has the indices that were never taken before those of the chunks that were returned, and the chunks of all
others are in flight. -/
structure Sound (setting : Setting) : Prop where
  cells : setting.buffer.recyclable_chunks_queue_.length = setting.buffer.queueCapacity
  grown : setting.buffer.chunks_.length ≤ setting.buffer.max_chunks_
  head : setting.buffer.queue_head_ < setting.buffer.queueCapacity
  tail : setting.buffer.queue_tail_ =
    (setting.buffer.queue_head_ + (setting.fresh.length + setting.returned.length)) % setting.buffer.queueCapacity
  window : Ring.window setting.buffer.recyclable_chunks_queue_ setting.buffer.queue_head_
    (setting.fresh.length + setting.returned.length) = setting.fresh ++ setting.returned
  places : (setting.inFlight.map (·.1) ++ setting.returned).Perm (List.range setting.buffer.chunks_.length)
  empty : ∀ flight ∈ setting.inFlight, setting.buffer.chunks_[flight.1]? = some none
  full : ∀ index ∈ setting.returned, ∃ chunk, setting.buffer.chunks_[index]? = some (some chunk) ∧
    Stamped setting.taken index chunk.seq_
  stamped : ∀ flight ∈ setting.inFlight, Stamped setting.taken flight.1 flight.2.seq_
  seq : setting.buffer.current_chunk_seq_ = BitVec.ofNat 32 (setting.taken.length + 1)
  few : setting.taken.length ≤ setting.calls ∧ setting.calls < 2 ^ 32
  handles : ∀ issued ∈ setting.issued, Given setting.taken issued
  iterator : ∃ passed ≤ setting.fresh.length + setting.returned.length,
    setting.buffer.current_iteration_index_ = (setting.buffer.queue_head_ + passed) % setting.buffer.queueCapacity ∧
    setting.visited.map some =
      (setting.returned.take (passed - setting.fresh.length)).map (setting.buffer.chunks_.getD · none)

variable {setting : Setting}

theorem mem_of_flying {index : Nat} {chunk : TraceBufferChunk} (flies : setting.flying index = some chunk) :
    (index, chunk) ∈ setting.inFlight := by
  obtain ⟨flight, found, rfl⟩ := Option.map_eq_some_iff.mp flies
  have same : flight.1 = index := by simpa using List.find?_some found
  exact same ▸ List.mem_of_find?_eq_some found

theorem flying_eq_none {index : Nat} : setting.flying index = none ↔ index ∉ setting.inFlight.map (·.1) := by
  rw [flying, Option.map_eq_none_iff, List.find?_eq_none]
  simp only [List.mem_map, not_exists, not_and, decide_eq_true_eq]

theorem length_fresh : setting.fresh.length = setting.buffer.max_chunks_ - setting.buffer.chunks_.length :=
  List.length_range'

theorem mem_fresh {index : Nat} (grown : setting.buffer.chunks_.length ≤ setting.buffer.max_chunks_) :
    index ∈ setting.fresh ↔ setting.buffer.chunks_.length ≤ index ∧ index < setting.buffer.max_chunks_ := by
  rw [fresh, List.mem_range'_1, Nat.add_sub_cancel' grown]

namespace Sound

section
variable (sound : setting.Sound)
include sound

theorem nodup : (setting.inFlight.map (·.1) ++ setting.returned).Nodup :=
  sound.places.nodup_iff.mpr List.nodup_range

theorem mem_places (index : Nat) :
    index ∈ setting.inFlight.map (·.1) ++ setting.returned ↔ index < setting.buffer.chunks_.length :=
  sound.places.mem_iff.trans List.mem_range

theorem count :
    setting.fresh.length + setting.returned.length + setting.inFlight.length = setting.buffer.max_chunks_ := by
  have lengths := sound.places.length_eq
  have grown := sound.grown
  rw [List.length_append, List.length_map, List.length_range] at lengths
  rw [length_fresh]
  omega

theorem room :
    setting.fresh.length + setting.returned.length < setting.buffer.queueCapacity := by
  have count := sound.count
  rw [TraceBufferRingBuffer.queueCapacity]
  omega

theorem queued : setting.buffer.queued = setting.fresh ++ setting.returned := by
  rw [TraceBufferRingBuffer.queued, sound.tail, TraceBufferRingBuffer.distance_eq sound.head sound.room, sound.window]

theorem queue (index : Nat) : setting.buffer.queued.count index =
    if index < setting.buffer.max_chunks_ ∧ setting.flying index = none then 1 else 0 := by
  have returned := sound.nodup.of_append_right
  have low {index : Nat} (member : index ∈ setting.returned) : index < setting.buffer.chunks_.length :=
    (sound.mem_places _).mp (List.mem_append_right _ member)
  have grown := sound.grown
  have distinct : (setting.fresh ++ setting.returned).Nodup := by
    rw [List.nodup_append]
    refine ⟨List.nodup_range', returned, fun first member second back same => ?_⟩
    have high := ((mem_fresh sound.grown).mp member).1
    exact Nat.not_lt.mpr high (same ▸ low back)
  have member : index ∈ setting.fresh ++ setting.returned ↔
      index < setting.buffer.max_chunks_ ∧ setting.flying index = none := by
    rw [List.mem_append, mem_fresh sound.grown, flying_eq_none]
    have places := sound.mem_places index
    rw [List.mem_append] at places
    have apart : index ∈ setting.returned → index ∉ setting.inFlight.map (·.1) := fun back flight =>
      (List.nodup_append.mp sound.nodup).2.2 index flight index back rfl
    constructor
    · rintro (high | back)
      · exact ⟨high.2, fun flight => Nat.not_lt.mpr high.1 (places.mp (.inl flight))⟩
      · exact ⟨(low back).trans_le sound.grown, apart back⟩
    · rintro ⟨inside, free⟩
      by_cases taken : index < setting.buffer.chunks_.length
      · exact .inr ((places.mpr taken).resolve_left free)
      · exact .inl ⟨Nat.le_of_not_lt taken, inside⟩
  rw [sound.queued, distinct.count]
  simp only [member]

/-- The cells before the iterator. -/
theorem ahead : ∃ passed, ∃ returned,
    setting.buffer.Ahead (setting.buffer.queue_head_ + passed) (setting.fresh.drop passed) returned ∧
    (setting.visited.map some ++ returned.map (setting.buffer.chunks_.getD · none)) =
      setting.returned.map (setting.buffer.chunks_.getD · none) ∧
    returned = setting.returned.drop (passed - setting.fresh.length) ∧
    passed ≤ setting.fresh.length + setting.returned.length := by
  obtain ⟨passed, few, current, visited⟩ := sound.iterator
  have left : (setting.fresh.drop passed).length + (setting.returned.drop (passed - setting.fresh.length)).length =
      setting.fresh.length + setting.returned.length - passed := by
    rw [List.length_drop, List.length_drop]
    omega
  refine ⟨passed, _, ⟨⟨sound.cells, ?_, current, ?_⟩, ?_, ?_, ?_⟩, ?_, rfl, few⟩
  · rw [left]
    exact Nat.lt_of_le_of_lt (Nat.sub_le _ _) sound.room
  · rw [left, Nat.add_assoc, Nat.add_sub_cancel' few]
    exact sound.tail
  · rw [left, ← Ring.drop_window, sound.window, List.drop_append]
  · exact fun index member => ((mem_fresh sound.grown).mp (List.mem_of_mem_drop member)).1
  · intro index member
    obtain ⟨chunk, slot, _⟩ := sound.full index (List.mem_of_mem_drop member)
    exact ⟨chunk, slot⟩
  · rw [visited, ← List.map_append, List.take_append_drop]

theorem iteration :
    ∃ chunks final, setting.buffer.nextChunks setting.buffer.queueCapacity = some (chunks, final) ∧
      setting.returned.Nodup ∧
      (setting.visited ++ chunks).map some = setting.returned.map (setting.buffer.chunks_.getD · none) ∧
      final.nextChunk = some (none, final) := by
  obtain ⟨passed, returned, ahead, whole, rfl, _⟩ := sound.ahead
  have room := sound.room
  obtain ⟨chunks, final, run, same, again⟩ := ahead.nextChunks setting.buffer.queueCapacity (by
    rw [List.length_drop]
    omega)
  exact ⟨chunks, final, run, sound.nodup.of_append_right, by rw [List.map_append, same, whole], again⟩

theorem handle (issued : Issued) (member : issued ∈ setting.issued)
    (event : TraceBufferChunk × Nat) (found : setting.buffer.getEventByHandle issued.handle = some event) :
    setting.taken.count issued.index = issued.generation ∧ event.2 = issued.event := by
  have given := sound.handles issued member
  rw [TraceBufferRingBuffer.getEventByHandle] at found
  split at found
  next chunk slot =>
    obtain ⟨same, found⟩ := Option.ite_none_left_eq_some.mp found
    cases found
    have inside := (List.getElem?_eq_some_iff.mp slot).1
    have back : issued.handle.chunk_index.toNat ∈ setting.returned := by
      refine (List.mem_append.mp ((sound.mem_places _).mpr inside)).resolve_left fun flight => ?_
      obtain ⟨flight, flies, index⟩ := List.mem_map.mp flight
      have nothing := sound.empty flight flies
      rw [index, slot] at nothing
      cases nothing
    obtain ⟨held, slot', stamped⟩ := sound.full _ back
    rw [slot] at slot'
    cases slot'
    exact ⟨given.count_eq (Nat.lt_of_le_of_lt sound.few.1 sound.few.2) stamped (not_not.mp same), given.2⟩
  next => cases found

end

end Sound

/-! ### The calls -/

/-- The setting before any call. -/
def initial (max_chunks unset : Nat) : Setting := { buffer := .new max_chunks unset }

theorem window_new (max_chunks unset : Nat) :
    Ring.window (List.range max_chunks ++ [unset]) 0 max_chunks = List.range max_chunks := by
  refine (List.map_congr_left fun k inside => ?_).trans (List.map_id _)
  have below : k < max_chunks := List.mem_range.mp inside
  have room : k < (List.range max_chunks ++ [unset]).length := by
    rw [List.length_append, List.length_range]
    exact Nat.lt_add_right _ below
  rw [Nat.zero_add, Ring.at_, Nat.mod_eq_of_lt room, List.getD_eq_getElem?_getD,
    List.getElem?_append_left (by rwa [List.length_range]), List.getElem?_range below]
  rfl

theorem Sound.initial (max_chunks unset : Nat) : (initial max_chunks unset).Sound where
  cells := by
    change (List.range max_chunks ++ [unset]).length = max_chunks + 1
    rw [List.length_append, List.length_range, List.length_singleton]
  grown := Nat.zero_le _
  head := Nat.succ_pos _
  tail := by
    rw [length_fresh]
    change max_chunks = (0 + (max_chunks - 0 + 0)) % (max_chunks + 1)
    rw [Nat.zero_add, Nat.add_zero, Nat.sub_zero, Nat.mod_eq_of_lt (Nat.lt_succ_self _)]
  window := by
    rw [length_fresh]
    change Ring.window (List.range max_chunks ++ [unset]) 0 max_chunks = List.range' 0 max_chunks ++ []
    rw [window_new, List.append_nil, List.range_eq_range']
  places := List.Perm.refl _
  empty := fun _ member => absurd member List.not_mem_nil
  full := fun _ member => absurd member List.not_mem_nil
  stamped := fun _ member => absurd member List.not_mem_nil
  seq := rfl
  few := ⟨Nat.le_refl 0, Nat.two_pow_pos 32⟩
  handles := fun _ member => absurd member List.not_mem_nil
  iterator := ⟨0, Nat.zero_le _, (Nat.zero_mod _).symm, by rw [Nat.zero_sub]; rfl⟩

/-- What `GetChunk` takes: an index that was never taken, or the one that was returned first. -/
structure Taking (setting : Setting) (index : Nat) (slots : List (Option TraceBufferChunk))
    (fresh returned : List Nat) : Prop where
  call : setting.buffer.getChunk = some (index, ⟨0, setting.buffer.current_chunk_seq_⟩, { setting.buffer with
    queue_head_ := setting.buffer.nextQueueIndex setting.buffer.queue_head_
    current_iteration_index_ := setting.buffer.nextQueueIndex setting.buffer.queue_head_
    chunks_ := slots
    current_chunk_seq_ := setting.buffer.current_chunk_seq_ + 1 })
  grown : slots.length ≤ setting.buffer.max_chunks_
  untaken : List.range' slots.length (setting.buffer.max_chunks_ - slots.length) = fresh
  split : setting.fresh ++ setting.returned = index :: (fresh ++ returned)
  erased : setting.returned.erase index = returned
  places : (index :: (setting.inFlight.map (·.1) ++ returned)).Perm (List.range slots.length)
  empty : slots[index]? = some none
  same : ∀ other < setting.buffer.chunks_.length, other ≠ index → slots[other]? = setting.buffer.chunks_[other]?

/-- The cell at the head of a queue that is not empty. -/
theorem Sound.first (sound : setting.Sound) {index : Nat} {rest : List Nat}
    (split : setting.fresh ++ setting.returned = index :: rest) :
    setting.buffer.recyclable_chunks_queue_[setting.buffer.queue_head_]? = some index := by
  have lengths := congrArg List.length split
  rw [List.length_append, List.length_cons] at lengths
  have window := sound.window
  rw [lengths, Ring.window_cons, split, List.cons.injEq] at window
  rw [Ring.getElem?_eq_at _ (by rw [sound.cells]; exact sound.head), window.1]

theorem getChunk_eq {buffer : TraceBufferRingBuffer} {index : Nat} {slots : List (Option TraceBufferChunk)}
    {slot : Option TraceBufferChunk} (ready : buffer.queueIsEmpty = false)
    (first : buffer.recyclable_chunks_queue_[buffer.queue_head_]? = some index)
    (grown : buffer.chunks_ ++ List.replicate (index + 1 - buffer.chunks_.length) none = slots)
    (held : slots[index]? = some slot) :
    buffer.getChunk = some (index, ⟨0, buffer.current_chunk_seq_⟩, { buffer with
      queue_head_ := buffer.nextQueueIndex buffer.queue_head_
      current_iteration_index_ := buffer.nextQueueIndex buffer.queue_head_
      chunks_ := slots.set index none
      current_chunk_seq_ := buffer.current_chunk_seq_ + 1 }) := by
  simp only [TraceBufferRingBuffer.getChunk, ready, Bool.false_eq_true, if_false, first, Option.bind_some, grown, held,
    Option.map_some]
  cases slot <;> rfl

theorem Sound.taking (sound : setting.Sound) (some_ : setting.buffer.queueIsEmpty = false) :
    ∃ index slots fresh returned, setting.Taking index slots fresh returned := by
  rcases Nat.lt_or_eq_of_le sound.grown with grows | whole
  · have head : setting.fresh = setting.buffer.chunks_.length :: List.range' (setting.buffer.chunks_.length + 1)
        (setting.buffer.max_chunks_ - (setting.buffer.chunks_.length + 1)) := by
      rw [fresh, ← Nat.sub_add_cancel (Nat.sub_pos_of_lt grows), List.range'_succ, Nat.sub_sub]
    have split := congrArg (· ++ setting.returned) head
    have longer : (setting.buffer.chunks_ ++ [none]).length = setting.buffer.chunks_.length + 1 := by
      rw [List.length_append, List.length_singleton]
    have empty : (setting.buffer.chunks_ ++ [none])[setting.buffer.chunks_.length]? = some none := by
      rw [List.getElem?_append_right (Nat.le_refl _), Nat.sub_self]
      rfl
    refine ⟨_, setting.buffer.chunks_ ++ [none], _, setting.returned, ?_, ?_, rfl, ?_, ?_, ?_, empty, ?_⟩
    · have call := getChunk_eq some_ (sound.first split) (by rw [Nat.add_sub_cancel_left, List.replicate_one]) empty
      rwa [List.set_append_right _ _ (Nat.le_refl _), Nat.sub_self, List.set_cons_zero] at call
    · rw [longer]
      exact grows
    · rw [longer]
      exact split
    · exact List.erase_of_not_mem fun back =>
        Nat.lt_irrefl _ ((sound.mem_places _).mp (List.mem_append_right _ back))
    · rw [longer, List.range_succ]
      exact (sound.places.cons _).trans (List.perm_append_singleton _ _).symm
    · exact fun other inside _ => List.getElem?_append_left inside
  · have none_fresh : setting.fresh = [] := by
      rw [fresh, whole, Nat.sub_self]
      rfl
    have more : setting.returned ≠ [] := by
      intro nothing
      have apart : setting.buffer.queue_head_ ≠ setting.buffer.queue_tail_ := of_decide_eq_false some_
      rw [sound.tail, none_fresh, nothing, List.length_nil, Nat.add_zero,
        Nat.mod_eq_of_lt sound.head] at apart
      exact apart rfl
    obtain ⟨index, rest, back⟩ := List.exists_cons_of_ne_nil more
    have split : setting.fresh ++ setting.returned = index :: rest := by rw [none_fresh, back, List.nil_append]
    have member : index ∈ setting.returned := back ▸ List.mem_cons_self
    have inside := (sound.mem_places index).mp (List.mem_append_right _ member)
    obtain ⟨chunk, slot, _⟩ := sound.full index member
    have enough : index + 1 - setting.buffer.chunks_.length = 0 := Nat.sub_eq_zero_of_le inside
    refine ⟨index, setting.buffer.chunks_.set index none, [], rest, ?_, ?_, ?_, split, ?_, ?_, ?_, ?_⟩
    · exact getChunk_eq some_ (sound.first split) (by rw [enough, List.replicate_zero, List.append_nil]) slot
    · rw [List.length_set]
      exact sound.grown
    · rw [List.length_set, whole, Nat.sub_self]
      rfl
    · rw [back, List.erase_cons_head]
    · rw [List.length_set]
      exact List.perm_middle.symm.trans (back ▸ sound.places)
    · exact List.getElem?_set_self inside
    · exact fun other _ apart => List.getElem?_set_ne (Ne.symm apart)

/-- The setting after a chunk was taken. -/
def took (setting : Setting) (index : Nat) (slots : List (Option TraceBufferChunk)) (returned : List Nat) :
    Setting where
  buffer := { setting.buffer with
    queue_head_ := setting.buffer.nextQueueIndex setting.buffer.queue_head_
    current_iteration_index_ := setting.buffer.nextQueueIndex setting.buffer.queue_head_
    chunks_ := slots
    current_chunk_seq_ := setting.buffer.current_chunk_seq_ + 1 }
  inFlight := (index, ⟨0, setting.buffer.current_chunk_seq_⟩) :: setting.inFlight
  returned := returned
  taken := index :: setting.taken
  issued := setting.issued
  calls := setting.calls + 1

section

variable {index : Nat} {slots : List (Option TraceBufferChunk)} {fresh returned : List Nat}

theorem Taking.step (taking : setting.Taking index slots fresh returned) :
    setting.step .getChunk = some (setting.took index slots returned) := by
  have erased := taking.erased
  subst erased
  rw [Setting.step, taking.call, Option.map_some]
  rfl

theorem Taking.sound (taking : setting.Taking index slots fresh returned) (sound : setting.Sound)
    (calls : setting.calls + 1 < 2 ^ 32) : (setting.took index slots returned).Sound := by
  have distinct := taking.places.nodup_iff.mpr List.nodup_range
  rw [List.nodup_cons, List.mem_append, not_or] at distinct
  have lengths := congrArg List.length taking.split
  rw [List.length_append, List.length_cons, List.length_append] at lengths
  have untaken : (setting.took index slots returned).fresh = fresh := taking.untaken
  have slot {other : Nat} (member : other ∈ setting.inFlight.map (·.1) ++ setting.returned) (apart : other ≠ index) :
      slots[other]? = setting.buffer.chunks_[other]? := taking.same other ((sound.mem_places other).mp member) apart
  have place : setting.buffer.nextQueueIndex setting.buffer.queue_head_ =
      (setting.buffer.queue_head_ + 1) % setting.buffer.queueCapacity := by
    rw [← TraceBufferRingBuffer.nextQueueIndex_mod, Nat.mod_eq_of_lt sound.head]
  have inside : setting.buffer.nextQueueIndex setting.buffer.queue_head_ < setting.buffer.queueCapacity := by
    rw [place]
    exact Nat.mod_lt _ (Nat.succ_pos _)
  exact {
    cells := sound.cells
    grown := taking.grown
    head := inside
    tail := by
      rw [untaken]
      change setting.buffer.queue_tail_ =
        (setting.buffer.nextQueueIndex setting.buffer.queue_head_ + (fresh.length + returned.length)) %
          setting.buffer.queueCapacity
      rw [sound.tail, lengths, place, Nat.mod_add_mod, Nat.add_comm (fresh.length + returned.length), ← Nat.add_assoc]
    window := by
      rw [untaken]
      change Ring.window setting.buffer.recyclable_chunks_queue_
        (setting.buffer.nextQueueIndex setting.buffer.queue_head_) (fresh.length + returned.length) = fresh ++ returned
      have window := sound.window
      rw [lengths, Ring.window_cons, taking.split, List.cons.injEq] at window
      rw [place, ← sound.cells, Ring.window_mod, window.2]
    places := taking.places
    empty := by
      intro flight member
      rcases List.mem_cons.mp member with rfl | member
      · exact taking.empty
      · have held : flight.1 ∈ setting.inFlight.map (·.1) := List.mem_map_of_mem member
        have apart : flight.1 ≠ index := fun same => distinct.1.1 (same ▸ held)
        exact (slot (List.mem_append_left _ held) apart).trans (sound.empty flight member)
    full := by
      intro other member
      have back : other ∈ setting.returned := List.mem_of_mem_erase (taking.erased ▸ member)
      have apart : other ≠ index := fun same => distinct.1.2 (same ▸ member)
      obtain ⟨chunk, held, stamped⟩ := sound.full other back
      exact ⟨chunk, (slot (List.mem_append_right _ back) apart).trans held, stamped.cons apart⟩
    stamped := by
      intro flight member
      rcases List.mem_cons.mp member with rfl | member
      · exact ⟨[], setting.taken, rfl, List.not_mem_nil, sound.seq⟩
      · exact (sound.stamped flight member).cons fun same => distinct.1.1 (same ▸ List.mem_map_of_mem member)
    seq := by
      change setting.buffer.current_chunk_seq_ + 1 = BitVec.ofNat 32 (setting.taken.length + 1 + 1)
      rw [sound.seq, BitVec.ofNat_add (setting.taken.length + 1) 1]
      rfl
    few := ⟨Nat.succ_le_succ sound.few.1, calls⟩
    handles := fun issued member => (sound.handles issued member).cons index
    iterator := ⟨0, Nat.zero_le _, (Nat.mod_eq_of_lt inside).symm, by rw [Nat.zero_sub]; rfl⟩ }

end

/-- The setting after a chunk was returned. -/
def gave (setting : Setting) (index : Nat) (chunk : TraceBufferChunk) : Setting :=
  { setting with
    buffer := { setting.buffer with
      chunks_ := setting.buffer.chunks_.set index (some chunk)
      recyclable_chunks_queue_ := setting.buffer.recyclable_chunks_queue_.set setting.buffer.queue_tail_ index
      queue_tail_ := setting.buffer.nextQueueIndex setting.buffer.queue_tail_ }
    inFlight := setting.inFlight.filter (·.1 ≠ index)
    returned := setting.returned ++ [index]
    calls := setting.calls + 1 }

section

variable {index : Nat} {chunk : TraceBufferChunk}

theorem Sound.returnChunk (sound : setting.Sound) (flies : setting.flying index = some chunk) :
    setting.step (.returnChunk index) = some (setting.gave index chunk) := by
  have member := mem_of_flying flies
  have count := sound.count
  have flights := List.length_pos_of_mem member
  have room : setting.fresh.length + setting.returned.length < setting.buffer.queueCapacity - 1 := by
    rw [TraceBufferRingBuffer.queueCapacity, Nat.add_sub_cancel]
    omega
  have free := TraceBufferRingBuffer.queueIsFull_eq sound.head room sound.tail
  have inside : setting.buffer.queue_tail_ < setting.buffer.recyclable_chunks_queue_.length := by
    rw [sound.cells, sound.tail]
    exact Nat.mod_lt _ (Nat.succ_pos _)
  rw [Setting.step, flies, Option.bind_some, TraceBufferRingBuffer.returnChunk,
    if_pos ⟨free, sound.empty _ member, inside⟩]
  rfl

theorem Sound.landed (sound : setting.Sound) (flies : setting.flying index = some chunk) :
    (index :: (setting.inFlight.filter (·.1 ≠ index)).map (·.1)).Perm (setting.inFlight.map (·.1)) := by
  have member : index ∈ setting.inFlight.map (·.1) := List.mem_map_of_mem (f := (·.1)) (mem_of_flying flies)
  have left : (setting.inFlight.filter (·.1 ≠ index)).map (·.1) = (setting.inFlight.map (·.1)).erase index := by
    rw [(List.nodup_append.mp sound.nodup).1.erase_eq_filter, List.filter_map]
    refine congrArg (List.map Prod.fst) (List.filter_congr fun flight _ => ?_)
    rw [Function.comp_apply, bne, Bool.beq_eq_decide_eq, decide_not]
  rw [left]
  exact (List.perm_cons_erase member).symm

theorem Sound.gave (sound : setting.Sound) (flies : setting.flying index = some chunk)
    (calls : setting.calls + 1 < 2 ^ 32) : (setting.gave index chunk).Sound := by
  have member := mem_of_flying flies
  have held : index ∈ setting.inFlight.map (·.1) := List.mem_map_of_mem (f := (·.1)) member
  have apart {other : Nat} (back : other ∈ setting.returned) : index ≠ other :=
    (List.nodup_append.mp sound.nodup).2.2 index held other back
  have fresh : (setting.gave index chunk).fresh = setting.fresh := by
    rw [Setting.fresh, Setting.fresh, Setting.gave, List.length_set]
  have same {other : Nat} (different : index ≠ other) :
      (setting.buffer.chunks_.set index (some chunk))[other]? = setting.buffer.chunks_[other]? :=
    List.getElem?_set_ne different
  have room : setting.fresh.length + setting.returned.length < setting.buffer.recyclable_chunks_queue_.length :=
    sound.cells ▸ sound.room
  exact {
    cells := (List.length_set).trans sound.cells
    grown := (List.length_set).trans_le sound.grown
    head := sound.head
    tail := by
      rw [fresh]
      change setting.buffer.nextQueueIndex setting.buffer.queue_tail_ =
        (setting.buffer.queue_head_ + (setting.fresh.length + (setting.returned ++ [index]).length)) %
          setting.buffer.queueCapacity
      rw [sound.tail, TraceBufferRingBuffer.nextQueueIndex_mod, List.length_append, List.length_singleton]
      rfl
    window := by
      rw [fresh]
      change Ring.window (setting.buffer.recyclable_chunks_queue_.set setting.buffer.queue_tail_ index)
        setting.buffer.queue_head_ (setting.fresh.length + (setting.returned ++ [index]).length) =
          setting.fresh ++ (setting.returned ++ [index])
      rw [sound.tail, ← sound.cells, List.length_append, List.length_singleton, ← List.append_assoc, ← sound.window]
      exact Ring.window_push _ room index
    places := by
      change ((setting.inFlight.filter (·.1 ≠ index)).map (·.1) ++ (setting.returned ++ [index])).Perm
        (List.range (setting.buffer.chunks_.set index (some chunk)).length)
      rw [List.length_set, ← List.append_assoc]
      exact (List.perm_append_singleton _ _).trans (((sound.landed flies).append_right _).trans sound.places)
    empty := by
      intro flight left
      obtain ⟨flight_held, different⟩ := List.mem_filter.mp left
      exact (same (Ne.symm (of_decide_eq_true different))).trans (sound.empty flight flight_held)
    full := by
      intro other member'
      rcases List.mem_append.mp member' with back | last
      · obtain ⟨held', slot, stamped⟩ := sound.full other back
        exact ⟨held', (same (apart back)).trans slot, stamped⟩
      · cases List.mem_singleton.mp last
        exact ⟨chunk, List.getElem?_set_self ((sound.mem_places _).mp (List.mem_append_left _ held)),
          sound.stamped _ member⟩
    stamped := fun flight left => sound.stamped flight (List.mem_filter.mp left).1
    seq := sound.seq
    few := ⟨Nat.le_succ_of_le sound.few.1, calls⟩
    handles := sound.handles
    iterator := by
      obtain ⟨passed, few, current, visited⟩ := sound.iterator
      have shorter : passed - setting.fresh.length ≤ setting.returned.length := Nat.sub_le_of_le_add (by
        rw [Nat.add_comm]
        exact few)
      rw [fresh]
      refine ⟨passed, few.trans (Nat.add_le_add_left (by
        change _ ≤ (setting.returned ++ [index]).length
        rw [List.length_append]
        exact Nat.le_add_right _ _) _), current, ?_⟩
      change setting.visited.map some = ((setting.returned ++ [index]).take _).map
        ((setting.buffer.chunks_.set index (some chunk)).getD · none)
      rw [visited, List.take_append_of_le_length shorter]
      refine List.map_congr_left fun other member' => ?_
      rw [List.getD_eq_getElem?_getD, List.getD_eq_getElem?_getD, same (apart (List.mem_of_mem_take member'))] }

end

/-- The setting after an event was added. -/
def added (setting : Setting) (index : Nat) (chunk : TraceBufferChunk) : Setting :=
  { setting with
    inFlight := setting.inFlight.map fun flight =>
      if flight.1 = index then (index, { chunk with next_free_ := chunk.next_free_ + 1 }) else flight
    issued := ⟨makeHandle chunk.seq_ index chunk.next_free_, index, setting.taken.count index, chunk.next_free_⟩ ::
      setting.issued }

theorem Sound.added (sound : setting.Sound) {index : Nat} {chunk : TraceBufferChunk}
    (flies : setting.flying index = some chunk) (room : chunk.next_free_ < kTraceBufferChunkSize) :
    (setting.added index chunk).Sound := by
  have member := mem_of_flying flies
  have stamp := sound.stamped _ member
  have flights : (setting.added index chunk).inFlight.map (·.1) = setting.inFlight.map (·.1) := by
    refine List.map_map.trans (List.map_congr_left fun flight _ => ?_)
    rw [Function.comp_apply]
    split
    next same => exact same.symm
    next => rfl
  exact {
    cells := sound.cells
    grown := sound.grown
    head := sound.head
    tail := sound.tail
    window := sound.window
    places := by
      rw [flights]
      exact sound.places
    empty := by
      intro flight held
      have old : flight.1 ∈ setting.inFlight.map (·.1) := flights ▸ List.mem_map_of_mem held
      obtain ⟨before, held', same⟩ := List.mem_map.mp old
      exact same ▸ sound.empty before held'
    full := sound.full
    stamped := by
      intro flight held
      obtain ⟨before, held', rfl⟩ := List.mem_map.mp held
      split
      next => exact stamp
      next => exact sound.stamped before held'
    seq := sound.seq
    few := sound.few
    handles := by
      intro issued held
      rcases List.mem_cons.mp held with rfl | held
      · obtain ⟨newer, older, split, absent, number⟩ := stamp
        refine ⟨⟨newer, older, split, number, ?_⟩, ?_⟩
        · change setting.taken.count index = older.count index + 1
          rw [split, List.count_append, List.count_eq_zero.mpr absent, List.count_cons_self, Nat.zero_add]
        · change ((BitVec.ofNat 16 chunk.next_free_).setWidth 6).toNat = chunk.next_free_
          have small : chunk.next_free_ < 2 ^ 6 := room
          have below : chunk.next_free_ < 2 ^ 16 := Nat.lt_trans small (by decide)
          rw [BitVec.toNat_setWidth, BitVec.toNat_ofNat, Nat.mod_eq_of_lt below, Nat.mod_eq_of_lt small]
      · exact sound.handles issued held
    iterator := sound.iterator }

/-- The setting after the iterator moved. -/
def went (setting : Setting) (place : Nat) (chunks : List TraceBufferChunk) : Setting :=
  { setting with
    buffer := setting.buffer.moved place
    visited := setting.visited ++ chunks }

theorem Sound.went (sound : setting.Sound) {passed : Nat} {chunks : List TraceBufferChunk}
    (few : passed ≤ setting.fresh.length + setting.returned.length)
    (visited : (setting.visited ++ chunks).map some =
      (setting.returned.take (passed - setting.fresh.length)).map (setting.buffer.chunks_.getD · none)) :
    (setting.went (setting.buffer.queue_head_ + passed) chunks).Sound where
  cells := sound.cells
  grown := sound.grown
  head := sound.head
  tail := sound.tail
  window := sound.window
  places := sound.places
  empty := sound.empty
  full := sound.full
  stamped := sound.stamped
  seq := sound.seq
  few := sound.few
  handles := sound.handles
  iterator := ⟨passed, few, rfl, visited⟩

theorem Sound.nextChunk (sound : setting.Sound) : ∃ after, setting.step .nextChunk = some after ∧ after.Sound := by
  obtain ⟨passed, left, ahead, whole, rest, few⟩ := sound.ahead
  have call := ahead.nextChunk
  have reached : passed + (setting.fresh.drop passed).length = max passed setting.fresh.length := by
    rw [List.length_drop]
    omega
  cases left with
  | nil =>
    obtain ⟨final, next, _, same⟩ := call
    have done : setting.visited.map some = setting.returned.map (setting.buffer.chunks_.getD · none) :=
      (List.append_nil _).symm.trans whole
    have all := List.drop_eq_nil_iff.mp rest.symm
    refine ⟨{ setting with buffer := final, visited := setting.visited ++ [] }, by rw [step, next]; rfl, ?_⟩
    rcases same with rfl | rfl
    · rw [List.append_nil]
      exact sound
    · rw [Nat.add_assoc, reached]
      refine sound.went (by omega) ?_
      rw [List.append_nil, done, List.take_of_length_le (by omega)]
  | cons index rest' =>
    obtain ⟨chunk, slot, next, _⟩ := call
    have longer : passed - setting.fresh.length < setting.returned.length := by
      have lengths := congrArg List.length rest
      rw [List.length_drop, List.length_cons] at lengths
      omega
    have next_place :
        max passed setting.fresh.length + 1 - setting.fresh.length = passed - setting.fresh.length + 1 := by
      omega
    have here : setting.buffer.chunks_.getD index none = some chunk := by
      rw [List.getD_eq_getElem?_getD, slot]
      rfl
    have before : setting.visited.map some =
        (setting.returned.take (passed - setting.fresh.length)).map (setting.buffer.chunks_.getD · none) := by
      refine List.append_cancel_right (whole.trans ?_)
      rw [rest, ← List.map_append, List.take_append_drop]
    refine ⟨setting.went (setting.buffer.queue_head_ + (max passed setting.fresh.length + 1)) [chunk], ?_, ?_⟩
    · rw [step, next, Nat.add_assoc, Nat.add_assoc, ← Nat.add_assoc passed, reached]
      rfl
    · refine sound.went (by omega) ?_
      rw [next_place, List.take_add, ← rest, List.map_append, List.map_append, before]
      exact congrArg (_ ++ ·) (congrArg (fun slot => [slot]) here.symm)

/-- No legal call fails. -/
theorem Sound.progress (sound : setting.Sound) (call : Call) (legal : setting.Legal call) :
    ∃ after, setting.step call = some after ∧ after.Sound := by
  cases call with
  | getChunk =>
    obtain ⟨index, slots, fresh, returned, taking⟩ := sound.taking legal.1
    exact ⟨_, taking.step, taking.sound sound legal.2⟩
  | addTraceEvent index =>
    obtain ⟨chunk, flies, room⟩ := (Option.any_eq_true _ _).mp legal
    exact ⟨setting.added index chunk, by rw [step, flies]; rfl, sound.added flies (of_decide_eq_true room)⟩
  | returnChunk index =>
    obtain ⟨chunk, flies⟩ := Option.isSome_iff_exists.mp legal.1
    exact ⟨_, sound.returnChunk flies, sound.gave flies legal.2⟩
  | nextChunk => exact sound.nextChunk

theorem Sound.correct (sound : setting.Sound) : Correct setting where
  queue := sound.queue
  handles := sound.handle
  iteration := sound.iteration
  progress := fun call legal => by
    obtain ⟨after, moved, _⟩ := sound.progress call legal
    rw [moved]
    rfl

/-- The ring is correct whatever is called, as long as sequence numbers do not wrap. -/
theorem correct_of_reaches (max_chunks unset : Nat) {setting : Setting}
    (reached : Reaches step Legal (initial max_chunks unset) setting) : Correct setting := by
  refine Sound.correct (reached.invariant Sound (Sound.initial max_chunks unset) ?_)
  intro before call after sound legal moved
  obtain ⟨other, step, kept⟩ := sound.progress call legal
  cases moved.symm.trans step
  exact kept

/-- Two chunks are returned in the other order, and the ring goes around. -/
theorem correct_around : ∃ setting, Correct setting ∧ runFrom step Legal (initial 2 7)
    [.getChunk, .addTraceEvent 0, .getChunk, .returnChunk 1, .returnChunk 0, .getChunk, .nextChunk, .addTraceEvent 1,
      .returnChunk 1] = some setting := by
  have run := Option.some_get (show (runFrom step Legal (initial 2 7) [.getChunk, .addTraceEvent 0, .getChunk,
    .returnChunk 1, .returnChunk 0, .getChunk, .nextChunk, .addTraceEvent 1, .returnChunk 1]).isSome from by decide)
  exact ⟨_, correct_of_reaches 2 7 (Reaches.start.run run.symm), run.symm⟩

end Setting

end Libchrome.Base.TraceEvent
