import Libchrome.Library.Sha1
import Mathlib.Data.List.GetD

/-! The portable hash: five registers, and one block of memory that is the message and its schedule at once. -/

namespace Libchrome.Base.Hash
open Library.Bytes
open Library.Sha1 (Word Words)

/-- The union of `W[80]` and `M[64]`, byte by byte; the machine stores the low byte of a word first. -/
abbrev Memory := Vector Byte 320

namespace Memory

def byte (memory : Memory) (position : Nat) : Byte := memory.toList.getD position 0

/-- `M[position] = value`. -/
def store (memory : Memory) (position : Nat) (value : Byte) : Memory := memory.setIfInBounds position value

/-- `W[t]`. -/
def word (memory : Memory) (t : Nat) : Word :=
  memory.byte (4 * t + 3) ++ memory.byte (4 * t + 2) ++ memory.byte (4 * t + 1) ++ memory.byte (4 * t)

/-- `W[t] = value`. -/
def setWord (memory : Memory) (t : Nat) (value : Word) : Memory :=
  (((memory.store (4 * t) (value.extractLsb' 0 8)).store (4 * t + 1) (value.extractLsb' 8 8)).store
    (4 * t + 2) (value.extractLsb' 16 8)).store (4 * t + 3) (value.extractLsb' 24 8)

end Memory

def f (t : Nat) (B C D : Word) : Word :=
  if t < 20 then (B &&& C) ||| (~~~B &&& D)
  else if t < 40 then B ^^^ C ^^^ D
  else if t < 60 then (B &&& C) ||| (B &&& D) ||| (C &&& D)
  else B ^^^ C ^^^ D

def S (n : Nat) (X : Word) : Word := (X <<< n) ||| (X >>> (32 - n))

def K (t : Nat) : Word :=
  if t < 20 then 0x5a827999
  else if t < 40 then 0x6ed9eba1
  else if t < 60 then 0x8f1bbcdc
  else 0xca62c1d6

def swapends (t : Word) : Word :=
  (t >>> 24) ||| ((t >>> 8) &&& 0xff00) ||| ((t &&& 0xff00) <<< 8) ||| (t <<< 24)

/-- `A` to `E` are `registers`, the array `H` is `H`. -/
structure SecureHashAlgorithm where
  registers : Words
  H : Words
  memory : Memory
  cursor : Nat
  l : BitVec 64

namespace SecureHashAlgorithm

def kDigestSizeBytes : Nat := 20

/-- The union keeps what it held. -/
def init (memory : Memory) : SecureHashAlgorithm where
  registers := ⟨0, 0, 0, 0, 0⟩
  H := ⟨0x67452301, 0xefcdab89, 0x98badcfe, 0x10325476, 0xc3d2e1f0⟩
  memory := memory
  cursor := 0
  l := 0

/-- Step a of `Process`: the words of the message, in place. -/
def swapStep (memory : Memory) (t : Nat) : Memory := memory.setWord t (swapends (memory.word t))

/-- Step b: the next word of the schedule. -/
def scheduleStep (memory : Memory) (t : Nat) : Memory :=
  memory.setWord t (S 1 (memory.word (t - 3) ^^^ memory.word (t - 8) ^^^
    memory.word (t - 14) ^^^ memory.word (t - 16)))

/-- Step d: one round on the registers. -/
def roundStep (memory : Memory) (registers : Words) (t : Nat) : Words where
  a := S 5 registers.a + f t registers.b registers.c registers.d + registers.e + memory.word t + K t
  b := registers.a
  c := S 30 registers.b
  d := registers.c
  e := registers.d

def process (sha : SecureHashAlgorithm) : SecureHashAlgorithm :=
  let swapped := (List.range 16).foldl swapStep sha.memory
  let scheduled := (List.range' 16 64).foldl scheduleStep swapped
  let registers := (List.range 80).foldl (roundStep scheduled) sha.H
  { sha with
    registers := registers
    H := sha.H.add registers
    memory := scheduled
    cursor := 0 }

/-- `M[cursor++] = value`. -/
def put (sha : SecureHashAlgorithm) (value : Byte) : SecureHashAlgorithm :=
  { sha with memory := sha.memory.store sha.cursor value, cursor := sha.cursor + 1 }

def updateStep (sha : SecureHashAlgorithm) (value : Byte) : SecureHashAlgorithm :=
  let stored := sha.put value
  let ready := if 64 ≤ stored.cursor then stored.process else stored
  { ready with l := ready.l + 8 }

def update (sha : SecureHashAlgorithm) (data : List Byte) : SecureHashAlgorithm := data.foldl updateStep sha

/-- `while (cursor < limit) M[cursor++] = 0`. -/
def zeroTo (limit : Nat) (sha : SecureHashAlgorithm) : SecureHashAlgorithm :=
  (List.replicate (limit - sha.cursor) 0).foldl put sha

def lengthByte (l : BitVec 64) (shift : Nat) : Byte := ((l >>> shift) &&& 0xff).setWidth 8

def pad (sha : SecureHashAlgorithm) : SecureHashAlgorithm :=
  let marked := sha.put 0x80
  let ready := if 64 - 8 < marked.cursor then (marked.zeroTo 64).process else marked
  let zeroed := ready.zeroTo (64 - 8)
  ([56, 48, 40, 32, 24, 16, 8, 0].map (lengthByte zeroed.l)).foldl put zeroed

def swapWords (words : Words) : Words :=
  ⟨swapends words.a, swapends words.b, swapends words.c, swapends words.d, swapends words.e⟩

def final (sha : SecureHashAlgorithm) : SecureHashAlgorithm :=
  let processed := sha.pad.process
  { processed with H := swapWords processed.H }

/-- A word as it lies in memory. -/
def storedBytes (word : Word) : List Byte :=
  [word.extractLsb' 0 8, word.extractLsb' 8 8, word.extractLsb' 16 8, word.extractLsb' 24 8]

def digest (sha : SecureHashAlgorithm) : List Byte :=
  storedBytes sha.H.a ++ storedBytes sha.H.b ++ storedBytes sha.H.c ++ storedBytes sha.H.d ++ storedBytes sha.H.e

end SecureHashAlgorithm

open SecureHashAlgorithm

def sha1HashBytes (memory : Memory) (data : List Byte) : List Byte :=
  (((init memory).update data).final.digest).take kDigestSizeBytes

/-! One block: swapped in place, expanded in place and run through the rounds, it is the block of the standard. -/

open Library.Sha1 (Word Words bigEndian wordAt schedule schedule_early schedule_late choice constant rotl
  oneRound compress)

namespace Memory

theorem byte_store (memory : Memory) {position : Nat} (inside : position < 320) (value : Byte) (other : Nat) :
    (memory.store position value).byte other = if other = position then value else memory.byte other := by
  have sized : memory.toList.length = 320 := Vector.length_toList
  unfold byte store
  rw [Vector.toList_setIfInBounds, List.getD_eq_getElem?_getD, List.getElem?_set, List.getD_eq_getElem?_getD]
  split
  next same => rw [if_pos (by omega), if_pos same.symm, Option.getD_some]
  next apart => rw [if_neg (Ne.symm apart)]

theorem extract_append (value : Word) :
    (value.extractLsb' 24 8 ++ value.extractLsb' 16 8 ++ value.extractLsb' 8 8 ++ value.extractLsb' 0 8 : Word) =
      value := by
  ext position inside
  simp only [BitVec.getElem_append, BitVec.getElem_extractLsb']
  grind

theorem word_setWord (memory : Memory) {t : Nat} (inside : t < 80) (value : Word) (other : Nat) :
    (memory.setWord t value).word other = if other = t then value else memory.word other := by
  have stored (position : Nat) : (memory.setWord t value).byte position =
      if position = 4 * t + 3 then value.extractLsb' 24 8
      else if position = 4 * t + 2 then value.extractLsb' 16 8
      else if position = 4 * t + 1 then value.extractLsb' 8 8
      else if position = 4 * t then value.extractLsb' 0 8
      else memory.byte position := by
    unfold setWord
    rw [byte_store _ (by omega), byte_store _ (by omega), byte_store _ (by omega), byte_store _ (by omega)]
  unfold word
  split
  next same =>
    subst same
    simp only [stored, Nat.add_left_cancel_iff, Nat.reduceEqDiff, if_false, if_true, Nat.add_eq_left, Nat.left_eq_add]
    exact extract_append value
  next apart =>
    have outside (place : Nat) (near : place < 4) : (memory.setWord t value).byte (4 * other + place) =
        memory.byte (4 * other + place) := by
      rw [stored, if_neg (by omega), if_neg (by omega), if_neg (by omega), if_neg (by omega)]
    rw [outside 3 (by decide), outside 2 (by decide), outside 1 (by decide), ← Nat.add_zero (4 * other),
      outside 0 (by decide)]

end Memory

theorem swapends_append (first second third fourth : Byte) :
    swapends (fourth ++ third ++ second ++ first : Word) = bigEndian first second third fourth := by
  have mask : ∀ position < 32,
      (0xff00 : Word).getLsbD position = (decide (8 ≤ position) && decide (position < 16)) := by decide
  ext position inside
  simp [swapends, bigEndian]
  grind

theorem f_eq_choice (t : Nat) (B C D : Word) : f t B C D = choice t B C D := by
  have chooses : (B &&& C) ||| (~~~B &&& D) = Library.Sha1.ch B C D := by
    ext position inside
    simp only [Library.Sha1.ch, BitVec.getElem_or, BitVec.getElem_and, BitVec.getElem_not, BitVec.getElem_xor]
    grind
  have majority : (B &&& C) ||| (B &&& D) ||| (C &&& D) = Library.Sha1.maj B C D := by
    ext position inside
    simp only [Library.Sha1.maj, BitVec.getElem_or, BitVec.getElem_and, BitVec.getElem_xor]
    grind
  unfold f choice
  rw [chooses, majority, ← Library.Sha1.parity]
  split
  next => rfl
  next =>
    split
    next => rfl
    next => split <;> rfl

theorem S_eq_rotl {n : Nat} (small : n < 32) (X : Word) : S n X = rotl n X := by
  unfold S rotl
  rw [BitVec.rotateLeft_def, Nat.mod_eq_of_lt small]

namespace SecureHashAlgorithm

theorem swap_words (memory : Memory) (count : Nat) (inside : count ≤ 16) (t : Nat) :
    ((List.range count).foldl swapStep memory).word t =
      if t < count then swapends (memory.word t) else memory.word t := by
  induction count with
  | zero => rfl
  | succ count ih =>
    have before := ih (by omega)
    rw [List.range_succ, List.foldl_append, List.foldl_cons, List.foldl_nil, swapStep,
      Memory.word_setWord _ (by omega)]
    split
    next same =>
      subst same
      rw [before, if_neg (Nat.lt_irrefl t), if_pos (Nat.lt_succ_self t)]
    next apart =>
      rw [before]
      split
      next early => rw [if_pos (Nat.lt_succ_of_lt early)]
      next late => rw [if_neg (by omega)]

variable {block : List Byte}

theorem schedule_words {memory : Memory} (words : ∀ t < 16, memory.word t = wordAt block t) (count : Nat)
    (inside : count ≤ 64) :
    ∀ t < 16 + count, ((List.range' 16 count).foldl scheduleStep memory).word t = schedule block t := by
  induction count with
  | zero =>
    intro t early
    rw [schedule_early early]
    exact words t early
  | succ count ih =>
    have before := ih (by omega)
    intro t reached
    rw [List.range'_concat, List.foldl_append, List.foldl_cons, List.foldl_nil, scheduleStep, Nat.one_mul,
      Memory.word_setWord _ (by omega)]
    split
    next same =>
      subst same
      rw [before _ (by omega), before _ (by omega), before _ (by omega), before _ (by omega),
        S_eq_rotl (by decide), schedule_late (Nat.le_add_right 16 count)]
    next apart => exact before t (by omega)

theorem roundStep_eq_oneRound {memory : Memory} {t : Nat} (scheduled : memory.word t = schedule block t)
    (registers : Words) : roundStep memory registers t = oneRound registers t (schedule block t) := by
  have sum : S 5 registers.a + f t registers.b registers.c registers.d + registers.e + memory.word t + K t =
      rotl 5 registers.a + choice t registers.b registers.c registers.d + registers.e + constant t +
        schedule block t := by
    rw [S_eq_rotl (by decide), f_eq_choice, scheduled, add_right_comm]
    rfl
  unfold roundStep oneRound
  rw [sum, S_eq_rotl (by decide)]

/-- The block that the memory holds, byte for byte. -/
def Holds (sha : SecureHashAlgorithm) (bytes : List Byte) : Prop :=
  sha.cursor = bytes.length ∧ ∀ position < bytes.length, sha.memory.byte position = bytes.getD position 0

variable {sha : SecureHashAlgorithm}

theorem process_H (held : sha.Holds block) (whole : block.length = 64) : sha.process.H = compress sha.H block := by
  have swapped (t : Nat) (early : t < 16) :
      ((List.range 16).foldl swapStep sha.memory).word t = wordAt block t := by
    rw [swap_words _ 16 le_rfl, if_pos early, Memory.word, swapends_append, held.2 _ (by omega),
      held.2 _ (by omega), held.2 _ (by omega), held.2 _ (by omega), wordAt]
  have scheduled := schedule_words swapped 64 le_rfl
  have rounds : (List.range 80).foldl
      (roundStep ((List.range' 16 64).foldl scheduleStep ((List.range 16).foldl swapStep sha.memory))) sha.H =
      (List.range 80).foldl (fun words t => oneRound words t (schedule block t)) sha.H := by
    apply List.foldl_ext
    intro registers t member
    exact roundStep_eq_oneRound (scheduled t (List.mem_range.mp member)) registers
  rw [compress, ← rounds]
  rfl

theorem process_holds (sha : SecureHashAlgorithm) : sha.process.Holds [] :=
  ⟨rfl, fun _ inside => absurd inside (Nat.not_lt_zero _)⟩

theorem put_holds {bytes : List Byte} (held : sha.Holds bytes) (room : bytes.length < 64) (value : Byte) :
    (sha.put value).Holds (bytes ++ [value]) := by
  have longer : (bytes ++ [value]).length = bytes.length + 1 := by
    rw [List.length_append, List.length_singleton]
  constructor
  · rw [longer, ← held.1]
    rfl
  · intro position inside
    rw [longer] at inside
    show (sha.memory.store sha.cursor value).byte position = _
    rw [Memory.byte_store _ (by have cursor := held.1; omega), held.1]
    split
    next last =>
      subst last
      rw [List.getD_append_right _ _ _ _ le_rfl, Nat.sub_self]
      rfl
    next earlier =>
      rw [held.2 position (by omega), List.getD_append _ _ _ _ (by omega)]

/-- Storing bytes one after the other touches neither the chaining value nor the count of bits. -/
theorem puts_holds (values : List Byte) {bytes : List Byte} (held : sha.Holds bytes)
    (room : bytes.length + values.length ≤ 64) :
    (values.foldl put sha).Holds (bytes ++ values) ∧ (values.foldl put sha).H = sha.H ∧
      (values.foldl put sha).l = sha.l := by
  induction values generalizing sha bytes with
  | nil => exact ⟨by rwa [List.append_nil], rfl, rfl⟩
  | cons value values ih =>
    rw [List.length_cons] at room
    have first := put_holds held (by omega) value
    have rest := ih first (by rw [List.length_append, List.length_singleton]; omega)
    rw [List.append_assoc, List.singleton_append] at rest
    exact rest

end SecureHashAlgorithm
end Libchrome.Base.Hash

/-! Every way to feed a message gives the digest of the standard. -/

namespace Libchrome.Base.Hash.SecureHashAlgorithm
open Library.Bytes Library.Absorbing
open Library.Sha1 (Word Words compress zeros lengthBytes padding)

/-- The object stands for the buffer of the standard's block loop, after `length` bytes. -/
structure Represents (sha : SecureHashAlgorithm) (buffer : Buffer Words Byte 64) (length : Nat) : Prop where
  chain : sha.H = buffer.chain
  held : sha.Holds buffer.pending
  bits : sha.l = BitVec.ofNat 64 (8 * length)

/-- The buffer before the first byte. -/
def fresh : Buffer Words Byte 64 := ⟨Library.Sha1.initial, [], by decide⟩

theorem represents_init (memory : Memory) : (init memory).Represents fresh 0 where
  chain := rfl
  held := ⟨rfl, fun _ inside => absurd inside (Nat.not_lt_zero _)⟩
  bits := rfl

theorem bits_succ (length : Nat) : BitVec.ofNat 64 (8 * length) + 8 = BitVec.ofNat 64 (8 * (length + 1)) := by
  rw [Nat.mul_add, BitVec.ofNat_add]
  rfl

theorem process_l (sha : SecureHashAlgorithm) : sha.process.l = sha.l := by
  unfold process
  rfl

variable {sha : SecureHashAlgorithm}

theorem updateStep_stored {value : Byte} (room : (sha.put value).cursor < 64) :
    sha.updateStep value = { sha.put value with l := sha.l + 8 } := by
  simp only [updateStep, if_neg (Nat.not_le.mpr room)]
  rfl

theorem updateStep_processed {value : Byte} (full : 64 ≤ (sha.put value).cursor) :
    sha.updateStep value = { (sha.put value).process with l := sha.l + 8 } := by
  simp only [updateStep, if_pos full, process_l]
  rfl

variable {buffer : Buffer Words Byte 64} {length : Nat}

theorem represents_updateStep (represented : sha.Represents buffer length) (value : Byte) :
    (sha.updateStep value).Represents (buffer.push compress value) (length + 1) := by
  have short := buffer.short
  have stored := put_holds represented.held short value
  have cursor : (sha.put value).cursor = buffer.pending.length + 1 := by
    rw [stored.1, List.length_append, List.length_singleton]
  have bits : sha.l + 8 = BitVec.ofNat 64 (8 * (length + 1)) := by
    rw [represented.bits, bits_succ]
  unfold Buffer.push
  split
  next room =>
    rw [updateStep_stored (by omega)]
    exact ⟨represented.chain, stored, bits⟩
  next full =>
    have whole : (buffer.pending ++ [value]).length = 64 := by
      rw [List.length_append, List.length_singleton]
      omega
    have chain : (sha.put value).process.H = compress buffer.chain (buffer.pending ++ [value]) := by
      rw [process_H stored whole]
      exact congrArg (compress · _) represented.chain
    rw [updateStep_processed (by omega)]
    exact ⟨chain, process_holds _, bits⟩

theorem represents_update (data : List Byte) (represented : sha.Represents buffer length) :
    (sha.update data).Represents (data.foldl (Buffer.push compress) buffer) (length + data.length) := by
  induction data generalizing sha buffer length with
  | nil => exact represented
  | cons value data ih =>
    rw [List.length_cons, Nat.add_comm data.length, ← Nat.add_assoc]
    exact ih (represents_updateStep represented value)

theorem updates_eq (chunks : List (List Byte)) (sha : SecureHashAlgorithm) :
    chunks.foldl update sha = sha.update chunks.flatten := by
  induction chunks generalizing sha with
  | nil => rfl
  | cons chunk chunks ih =>
    rw [List.foldl_cons, ih, List.flatten_cons, update, update, update, List.foldl_append]

theorem lengthByte_eq (value : Nat) (place : Nat) (small : value < 2 ^ 64) :
    lengthByte (BitVec.ofNat 64 value) (8 * place) = BitVec.ofNat 8 (value / 256 ^ place) := by
  have power : 2 ^ (8 * place) = 256 ^ place := by rw [Nat.pow_mul]
  apply BitVec.eq_of_toNat_eq
  rw [lengthByte, BitVec.toNat_setWidth, BitVec.toNat_and, BitVec.toNat_ushiftRight, BitVec.toNat_ofNat,
    Nat.mod_eq_of_lt small, Nat.shiftRight_eq_div_pow, power, BitVec.toNat_ofNat]
  exact (congrArg (· % 2 ^ 8) (Nat.and_two_pow_sub_one_eq_mod (value / 256 ^ place) 8)).trans (Nat.mod_mod _ _)

theorem lengthBytes_eq (length : Nat) (bounded : length < 2 ^ 61) :
    [56, 48, 40, 32, 24, 16, 8, 0].map (lengthByte (BitVec.ofNat 64 (8 * length))) = lengthBytes length := by
  have byteAt (place : Nat) := lengthByte_eq (8 * length) place (by omega)
  have places : [56, 48, 40, 32, 24, 16, 8, 0] = [7, 6, 5, 4, 3, 2, 1, 0].map (8 * ·) := rfl
  rw [places, List.map_map]
  simp only [Function.comp_def, byteAt]
  simp [lengthBytes, encode, Nat.div_div_eq_div_mul]

theorem zeroTo_holds {bytes : List Byte} (held : sha.Holds bytes) {limit : Nat} (reached : bytes.length ≤ limit)
    (inside : limit ≤ 64) :
    (sha.zeroTo limit).Holds (bytes ++ List.replicate (limit - bytes.length) 0) ∧
      (sha.zeroTo limit).H = sha.H ∧ (sha.zeroTo limit).l = sha.l := by
  have fits : bytes.length + (List.replicate (limit - bytes.length) (0 : Byte)).length ≤ 64 := by
    rw [List.length_replicate]
    omega
  unfold zeroTo
  rw [held.1]
  exact puts_holds _ held fits

/-- The end of `Pad`: zeros as far as the length, and the length. -/
def padLength (sha : SecureHashAlgorithm) : SecureHashAlgorithm :=
  ([56, 48, 40, 32, 24, 16, 8, 0].map (lengthByte (sha.zeroTo 56).l)).foldl put (sha.zeroTo 56)

theorem pad_roomy (room : (sha.put 0x80).cursor ≤ 56) : sha.pad = (sha.put 0x80).padLength := by
  simp only [pad, if_neg (Nat.not_lt.mpr room)]
  rfl

theorem pad_crowded (crowded : 56 < (sha.put 0x80).cursor) :
    sha.pad = ((sha.put 0x80).zeroTo 64).process.padLength := by
  simp only [pad, if_pos crowded]
  rfl

theorem padLength_H {bytes : List Byte} (held : sha.Holds bytes) (room : bytes.length ≤ 56)
    (bits : sha.l = BitVec.ofNat 64 (8 * length)) (bounded : length < 2 ^ 61) :
    sha.padLength.process.H =
      compress sha.H (bytes ++ List.replicate (56 - bytes.length) 0 ++ lengthBytes length) := by
  have zeroed := zeroTo_holds held room (by decide)
  have eight : (lengthBytes length).length = 8 := by rw [lengthBytes, List.length_reverse, length_encode]
  have filled : (bytes ++ List.replicate (56 - bytes.length) 0).length = 56 := by
    rw [List.length_append, List.length_replicate]
    omega
  have stored := puts_holds (lengthBytes length) zeroed.1 (by omega)
  have whole : (bytes ++ List.replicate (56 - bytes.length) 0 ++ lengthBytes length).length = 64 := by
    rw [List.length_append, filled, eight]
  unfold padLength
  rw [zeroed.2.2, bits, lengthBytes_eq length bounded, process_H stored.1 whole, stored.2.1, zeroed.2.1]

theorem absorb_last {chain : Words} {block : List Byte} (whole : block.length = 64) :
    absorb 64 compress chain block = compress chain block := by
  rw [← List.append_nil block, absorb_block chain whole (by decide), absorb_short _ (by decide), List.append_nil]

theorem pad_process_H (represented : sha.Represents buffer length) (position : buffer.pending.length = length % 64)
    (bounded : length < 2 ^ 61) : sha.pad.process.H = buffer.followedBy compress (padding length) := by
  have short := buffer.short
  have marked := put_holds represented.held short 0x80
  have bits : (sha.put 0x80).l = BitVec.ofNat 64 (8 * length) := represented.bits
  have chain : (sha.put 0x80).H = buffer.chain := represented.chain
  have cursor := marked.1
  have eight : (lengthBytes length).length = 8 := by rw [lengthBytes, List.length_reverse, length_encode]
  have joined : buffer.pending ++ padding length =
      (buffer.pending ++ [0x80]) ++ List.replicate (zeros length) 0 ++ lengthBytes length := by
    simp only [padding, List.append_assoc, List.cons_append, List.nil_append]
  have markedLength : (buffer.pending ++ [(0x80 : Byte)]).length = length % 64 + 1 := by
    rw [List.length_append, List.length_singleton, position]
  unfold Buffer.followedBy
  rw [joined]
  generalize buffer.pending ++ [(0x80 : Byte)] = front at *
  by_cases room : front.length ≤ 56
  · have count : zeros length = 56 - front.length := by
      unfold zeros
      omega
    have whole : (front ++ List.replicate (56 - front.length) 0 ++ lengthBytes length).length = 64 := by
      rw [List.length_append, List.length_append, List.length_replicate, eight]
      omega
    rw [pad_roomy (by omega), padLength_H marked room bits bounded, count, absorb_last whole, chain]
  · have zeroed := zeroTo_holds marked (show front.length ≤ 64 by omega) le_rfl
    have block : (front ++ List.replicate (64 - front.length) 0).length = 64 := by
      rw [List.length_append, List.length_replicate]
      omega
    have whole : (List.replicate 56 (0 : Byte) ++ lengthBytes length).length = 64 := by
      rw [List.length_append, List.length_replicate, eight]
    have count : zeros length = (64 - front.length) + 56 := by
      unfold zeros
      omega
    have bitsLeft : ((sha.put 0x80).zeroTo 64).process.l = BitVec.ofNat 64 (8 * length) := by
      rw [process_l, zeroed.2.2, bits]
    rw [pad_crowded (by omega), padLength_H (process_holds _) (by decide) bitsLeft bounded,
      process_H zeroed.1 block, zeroed.2.1, chain, count, List.replicate_add, ← List.append_assoc front,
      List.append_assoc _ (List.replicate 56 0), absorb_block _ block (by decide), absorb_last whole]
    rfl

theorem swapends_eq (word : Word) : swapends word =
    word.extractLsb' 0 8 ++ word.extractLsb' 8 8 ++ word.extractLsb' 16 8 ++ word.extractLsb' 24 8 := by
  calc swapends word
    _ = swapends (word.extractLsb' 24 8 ++ word.extractLsb' 16 8 ++ word.extractLsb' 8 8 ++ word.extractLsb' 0 8) := by
        rw [Memory.extract_append]
    _ = _ := swapends_append _ _ _ _

theorem storedBytes_swapends (word : Word) : storedBytes (swapends word) = Library.Sha1.wordBytes word := by
  rw [swapends_eq]
  unfold storedBytes Library.Sha1.wordBytes
  simp only [List.cons.injEq, and_true]
  refine ⟨?_, ?_, ?_, ?_⟩ <;> ext position inside <;> simp
  all_goals grind

theorem digest_final (sha : SecureHashAlgorithm) : sha.final.digest = sha.pad.process.H.bytes := by
  have swapped : sha.final.H = swapWords sha.pad.process.H := by
    unfold final
    rfl
  unfold digest Words.bytes
  rw [swapped]
  simp only [swapWords, storedBytes_swapends]

/-- The digest of the portable algorithm is the SHA-1 of the bytes it was given, whatever the calls were. -/
theorem digest_eq_sha1 (memory : Memory) (chunks : List (List Byte))
    (bounded : (chunks.map List.length).sum < 2 ^ 61) :
    (chunks.foldl update (init memory)).final.digest = Library.Sha1.digest chunks.flatten := by
  have whole : chunks.flatten.length < 2 ^ 61 := by rwa [List.length_flatten]
  have represented := represents_update chunks.flatten (represents_init memory)
  rw [Nat.zero_add] at represented
  have position : (chunks.flatten.foldl (Buffer.push compress) fresh).pending.length = chunks.flatten.length % 64 := by
    rw [Buffer.foldl_length, fresh, List.length_nil, Nat.zero_add]
  have hash := pad_process_H represented position whole
  rw [Buffer.foldl_followedBy] at hash
  rw [updates_eq, digest_final, hash]
  rfl

theorem digest_eq_sha1_abc :
    ([[0x61], [], [0x62, 0x63]].foldl update (init (Vector.replicate 320 0xa5))).final.digest =
      Library.Sha1.digest [0x61, 0x62, 0x63] :=
  digest_eq_sha1 _ [[0x61], [], [0x62, 0x63]] (by decide)

end Libchrome.Base.Hash.SecureHashAlgorithm
