import Libchrome.Bpf.CodeGen

/-! Every call keeps the assembler's invariant, and the node it returns means
what the requested instruction means. -/

namespace Libchrome.Bpf
open Library.ForwardCode Library.Checked
namespace CodeGen

/-- The only failure a well-named request can run into: the program is (nearly) full. -/
def Full (start : Nat) (failure : CodeGenCheck) : Prop :=
  failure = .programTooLong ∧ BPF_MAXINSNS < start + 3

variable {gen : CodeGen} {target : Nat}

theorem offset_eq (emitted : gen.Emitted target) :
    gen.offset target = .ok (gen.program_.length - 1 - target) := if_pos emitted

variable {start : Nat}

theorem offset_ensures (emitted : gen.Emitted target) :
    Ensures (Full start) (gen.offset target) (· = gen.program_.length - 1 - target) := by
  rw [offset_eq emitted]
  rfl

/-- Offsets that the CHECKs of `Append` accept. -/
def Fits (code : BitVec 16) (jt jf : Nat) : Prop :=
  jt = 0 ∧ jf = 0 ∨
    (BPF_CLASS code = BPF_JMP ∧ BPF_OP code ≠ BPF_JA) ∧ jt ≤ kBranchRange ∧ jf ≤ kBranchRange

variable {code : BitVec 16}

theorem checkOffsets_eq {jt jf : Nat} (fits : Fits code jt jf) : checkOffsets code jt jf = .ok () := by
  unfold checkOffsets check
  obtain ⟨rfl, rfl⟩ | ⟨branch, jtFits, jfFits⟩ := fits
  · split
    · rw [if_pos (Nat.zero_le _)]
      rfl
    · rw [if_pos ⟨rfl, rfl⟩]
  · rw [if_pos branch, if_pos jtFits, if_pos jfFits]
    rfl

theorem Valid.append_ensures (valid : gen.Valid) {k : BitVec 32} {jt jf : Nat} (fits : Fits code jt jf)
    (lands : Lands ⟨code, BitVec.ofNat 8 jt, BitVec.ofNat 8 jf, k⟩ gen.program_.length)
    (recent : gen.program_.length ≤ start + 2) :
    Ensures (Full start) (gen.append code k jt jf) (fun result =>
      result = (gen.program_.length, gen.push ⟨code, BitVec.ofNat 8 jt, BitVec.ofNat 8 jf, k⟩) ∧
      result.2.Valid) := by
  unfold append
  rw [checkOffsets_eq fits]
  refine Ensures.bind (show Ensures _ (.ok ()) fun _ => True from trivial) fun _ _ => ?_
  refine Ensures.bind (Ensures.check fun full => ⟨rfl, by omega⟩) fun _ room => ?_
  refine Ensures.bind (Ensures.check fun unpaired => absurd valid.paired.symm unpaired) fun _ _ => ?_
  exact ⟨rfl, valid.push lands room⟩

theorem Valid.setEquivalent (valid : gen.Valid) {other : Nat} (emitted : gen.Emitted other)
    (same : ∀ data, gen.meaning data other = gen.meaning data target) :
    { gen with equivalent_ := gen.equivalent_.set target other }.Valid where
  sized := valid.sized
  paired := by rw [List.length_set]; exact valid.paired
  lands := valid.lands
  equivalents := by
    intro node found lookup
    by_cases changed : target = node
    · subst changed
      rw [List.getElem?_set_self'] at lookup
      obtain ⟨_, _, rfl⟩ := Option.map_eq_some_iff.1 lookup
      exact ⟨emitted, same⟩
    · rw [List.getElem?_set_ne changed] at lookup
      exact valid.equivalents node found lookup
  memos := valid.memos

theorem mem_push {insn other : SockFilter} (member : other ∈ (gen.push insn).program_) :
    other ∈ gen.program_ ∨ other = insn := by
  simpa only [push, List.mem_append, List.mem_singleton] using member

/-- What `WithinRange` promises about the node it returns. -/
structure Reaches (gen : CodeGen) (target range : Nat) (result : Nat × CodeGen) : Prop where
  valid : result.2.Valid
  grows : gen.Grows result.2
  length_le : result.2.program_.length ≤ gen.program_.length + 1
  emitted : result.2.Emitted result.1
  near : result.2.program_.length - 1 - result.1 ≤ range
  same : ∀ data, result.2.meaning data result.1 = gen.meaning data target
  adds : ∀ insn ∈ result.2.program_, insn ∈ gen.program_ ∨ insn.isJumpAlways

theorem jump_offset_toNat (valid : gen.Valid) (target : Nat) :
    (BitVec.ofNat 32 (gen.program_.length - 1 - target)).toNat = gen.program_.length - 1 - target := by
  have sized : gen.program_.length ≤ 4096 := valid.sized
  rw [BitVec.toNat_ofNat, Nat.mod_eq_of_lt (by omega)]

def jumpTo (gen : CodeGen) (target : Nat) : SockFilter :=
  ⟨BPF_JMP ||| BPF_JA, 0, 0, BitVec.ofNat 32 (gen.program_.length - 1 - target)⟩

theorem jumpTo_always (gen : CodeGen) (target : Nat) : (gen.jumpTo target).isJumpAlways :=
  show BPF_CLASS (BPF_JMP ||| BPF_JA) = BPF_JMP ∧ BPF_OP (BPF_JMP ||| BPF_JA) = BPF_JA from by decide

theorem lands_jumpTo (valid : gen.Valid) (emitted : gen.Emitted target) :
    Lands (gen.jumpTo target) gen.program_.length := by
  rw [Lands, if_pos (gen.jumpTo_always target), jumpTo, jump_offset_toNat valid target]
  unfold Emitted at emitted
  omega

theorem meaning_jumpTo (valid : gen.Valid) (emitted : gen.Emitted target) (data : ArchSeccompData) :
    (gen.push (gen.jumpTo target)).meaning data gen.program_.length = gen.meaning data target := by
  funext registers
  unfold Emitted at emitted
  rw [meaning_push, exec, if_pos (gen.jumpTo_always target)]
  simp only [jumpTo, jump_offset_toNat valid target]
  rw [if_pos (by omega)]
  congr 1
  omega

theorem withinRange_ensures (valid : gen.Valid) (range : Nat) (emitted : gen.Emitted target)
    (recent : gen.program_.length ≤ start + 2) :
    Ensures (Full start) (gen.withinRange target range) (gen.Reaches target range) := by
  unfold withinRange
  refine (offset_ensures emitted).bind fun distance distanceEq => ?_
  split
  next near =>
    exact ⟨valid, .refl gen, Nat.le_succ _, emitted, distanceEq ▸ near, fun _ => rfl, fun _ => .inl⟩
  next far =>
    have paired := valid.paired
    obtain ⟨equivalent, lookup⟩ : ∃ other, gen.equivalent_[target]? = some other := by
      rw [List.getElem?_eq_getElem (by unfold Emitted at emitted; omega)]
      exact ⟨_, rfl⟩
    have ⟨equivalentEmitted, same⟩ := valid.equivalents target equivalent lookup
    simp only [lookup]
    refine (offset_ensures equivalentEmitted).bind fun other otherEq => ?_
    split
    next near =>
      exact ⟨valid, .refl gen, Nat.le_succ _, equivalentEmitted, otherEq ▸ near, same, fun _ => .inl⟩
    next =>
      refine (offset_ensures emitted).bind fun length lengthEq => ?_
      subst lengthEq
      refine (valid.append_ensures (.inl ⟨rfl, rfl⟩) (lands_jumpTo valid emitted) recent).bind ?_
      rintro _ ⟨rfl, pushed⟩
      have jumped : (gen.push (gen.jumpTo target)).Emitted gen.program_.length := by
        rw [Emitted, length_push]
        omega
      have meaning := meaning_jumpTo valid emitted
      have grows := gen.grows_push (gen.jumpTo target)
      exact {
        valid := pushed.setEquivalent jumped fun data =>
          (meaning data).trans (grows.meaning_eq data emitted).symm
        grows := grows
        length_le := (length_push gen _).le
        emitted := jumped
        near := by
          change (gen.push _).program_.length - 1 - gen.program_.length ≤ range
          rw [length_push]
          omega
        same := meaning
        adds := fun insn member => (mem_push member).imp_right fun added => by
          rw [added]
          exact gen.jumpTo_always target }

/-- What a call promises about the node it returns. -/
structure Makes (gen : CodeGen) (key : MemoKey) (result : Nat × CodeGen) : Prop where
  valid : result.2.Valid
  grows : gen.Grows result.2
  emitted : result.2.Emitted result.1
  same : ∀ data, result.2.meaning data result.1 = follow data (result.2.meaning data) key
  adds : ∀ insn ∈ result.2.program_, insn ∈ gen.program_ ∨ insn.isJumpAlways ∨
    insn.code = key.code ∧ insn.k = key.k

variable {key : MemoKey}

theorem meaning_push_follow {insn : SockFilter} (data : ArchSeccompData) (conditional : ¬insn.isJumpAlways)
    (moves : ∀ registers, transfer data insn registers = transfer data ⟨key.code, 0, 0, key.k⟩ registers)
    (lands : Lands insn gen.program_.length)
    (next : BPF_CLASS key.code ≠ BPF_JMP → BPF_CLASS key.code ≠ BPF_RET →
      gen.meaning data (gen.program_.length - 1) = gen.meaning data key.jt)
    (jt : BPF_CLASS key.code = BPF_JMP →
      gen.meaning data (gen.program_.length - 1 - insn.jt.toNat) = gen.meaning data key.jt)
    (jf : BPF_CLASS key.code = BPF_JMP →
      gen.meaning data (gen.program_.length - 1 - insn.jf.toNat) = gen.meaning data key.jf) :
    (gen.push insn).meaning data gen.program_.length = follow data (gen.meaning data) key := by
  funext registers
  rw [meaning_push, follow, ← moves]
  have step : exec data insn registers = exec data insn registers := rfl
  conv_rhs at step => rw [exec, if_neg conditional]
  cases moved : transfer data insn registers with
  | halt result => simp only [moved] at step; rw [step]
  | next regs =>
    simp only [moved] at step
    rw [moves] at moved
    have straight := transfer_next moved
    have below := exec_skip_inside lands step
    rw [step]
    simp only [if_pos below, Nat.sub_zero, next straight.1 straight.2]
  | branch taken regs =>
    rw [moves] at moved
    have jump := transfer_branch moved
    cases taken
    · simp only [moves, moved] at step
      have below := exec_skip_inside lands step
      rw [step]
      simp only [if_pos below, jf jump, Bool.false_eq_true, if_false]
    · simp only [moves, moved] at step
      have below := exec_skip_inside lands step
      rw [step]
      simp only [if_pos below, jt jump, if_true]

theorem transfer_offsets {data : ArchSeccompData} {k : BitVec 32} {jt jf : BitVec 8} (jump : BPF_CLASS code = BPF_JMP)
    (registers : Registers) :
    transfer data ⟨code, jt, jf, k⟩ registers = transfer data ⟨code, 0, 0, k⟩ registers := by
  have load : BPF_CLASS code ≠ BPF_LD := by rw [jump]; decide
  simp only [transfer, if_neg load, if_pos jump, Verifier.jmpTest]

theorem appendBranch_ensures (valid : gen.Valid) (jump : BPF_CLASS key.code = BPF_JMP)
    (conditional : BPF_OP key.code ≠ BPF_JA) {jt jf : Nat} (jtEmitted : gen.Emitted jt) (jfEmitted : gen.Emitted jf)
    (jtNear : gen.program_.length - 1 - jt ≤ kBranchRange) (jfNear : gen.program_.length - 1 - jf ≤ kBranchRange)
    (jtSame : ∀ data, gen.meaning data jt = gen.meaning data key.jt)
    (jfSame : ∀ data, gen.meaning data jf = gen.meaning data key.jf) (names : Names gen.Emitted key)
    (recent : gen.program_.length ≤ start + 2) :
    Ensures (Full start) (gen.append key.code key.k (gen.program_.length - 1 - jt)
      (gen.program_.length - 1 - jf)) (gen.Makes key) := by
  unfold Emitted at jtEmitted jfEmitted
  unfold kBranchRange at jtNear jfNear
  have byte (distance : Nat) (near : distance ≤ 255) : (BitVec.ofNat 8 distance).toNat = distance := by
    rw [BitVec.toNat_ofNat, Nat.mod_eq_of_lt (by omega)]
  have back (node : Nat) (emitted : node < gen.program_.length) :
      gen.program_.length - 1 - (gen.program_.length - 1 - node) = node := by omega
  have always : ¬SockFilter.isJumpAlways ⟨key.code, BitVec.ofNat 8 (gen.program_.length - 1 - jt),
      BitVec.ofNat 8 (gen.program_.length - 1 - jf), key.k⟩ := fun always => conditional always.2
  have lands : Lands ⟨key.code, BitVec.ofNat 8 (gen.program_.length - 1 - jt),
      BitVec.ofNat 8 (gen.program_.length - 1 - jf), key.k⟩ gen.program_.length := by
    rw [Lands, if_neg always, if_pos jump, byte _ jtNear, byte _ jfNear]
    omega
  refine (valid.append_ensures (.inr ⟨⟨jump, conditional⟩, jtNear, jfNear⟩) lands recent).mono ?_
  rintro _ ⟨rfl, pushed⟩
  have grows := gen.grows_push ⟨key.code, BitVec.ofNat 8 (gen.program_.length - 1 - jt),
    BitVec.ofNat 8 (gen.program_.length - 1 - jf), key.k⟩
  refine ⟨pushed, grows, ?_, fun data => ?_, fun insn member => (mem_push member).imp_right fun added =>
    .inr (by rw [added]; exact ⟨rfl, rfl⟩)⟩
  · simp only [Emitted, length_push]
    omega
  · rw [meaning_push_follow data always (transfer_offsets jump) lands (fun other => absurd jump other)]
    · exact follow_congr names fun _ known => (grows.meaning_eq data known).symm
    · intro _
      rw [byte _ jtNear, back jt jtEmitted, jtSame]
    · intro _
      rw [byte _ jfNear, back jf jfEmitted, jfSame]

theorem appendPlain_ensures (valid : gen.Valid) (straight : BPF_CLASS key.code ≠ BPF_JMP)
    (next : BPF_CLASS key.code ≠ BPF_RET → 0 < gen.program_.length ∧
      ∀ data, gen.meaning data (gen.program_.length - 1) = gen.meaning data key.jt)
    (names : Names gen.Emitted key) (recent : gen.program_.length ≤ start + 2) :
    Ensures (Full start) (gen.append key.code key.k 0 0) (gen.Makes key) := by
  have always : ¬SockFilter.isJumpAlways ⟨key.code, BitVec.ofNat 8 0, BitVec.ofNat 8 0, key.k⟩ :=
    fun always => straight always.1
  have lands : Lands ⟨key.code, BitVec.ofNat 8 0, BitVec.ofNat 8 0, key.k⟩ gen.program_.length := by
    rw [Lands, if_neg always, if_neg straight]
    by_cases ret : BPF_CLASS key.code = BPF_RET
    · exact .inl ret
    · exact .inr (next ret).1
  refine (valid.append_ensures (.inl ⟨rfl, rfl⟩) lands recent).mono ?_
  rintro _ ⟨rfl, pushed⟩
  have grows := gen.grows_push ⟨key.code, BitVec.ofNat 8 0, BitVec.ofNat 8 0, key.k⟩
  refine ⟨pushed, grows, ?_, fun data => ?_, fun insn member => (mem_push member).imp_right fun added =>
    .inr (by rw [added]; exact ⟨rfl, rfl⟩)⟩
  · simp only [Emitted, length_push]
    omega
  · rw [meaning_push_follow data always (fun _ => rfl) lands (fun _ ret => (next ret).2 data)
      (fun jump => absurd jump straight) (fun jump => absurd jump straight)]
    exact follow_congr names fun _ known => (grows.meaning_eq data known).symm

theorem Makes.of_grows {later : CodeGen} {result : Nat × CodeGen} (makes : later.Makes key result)
    (grows : gen.Grows later) (adds : ∀ insn ∈ later.program_, insn ∈ gen.program_ ∨ insn.isJumpAlways) :
    gen.Makes key result :=
  ⟨makes.valid, grows.trans makes.grows, makes.emitted, makes.same, fun insn member =>
    (makes.adds insn member).elim (fun old => (adds insn old).imp_right .inl) .inr⟩

theorem appendInstruction_ensures (valid : gen.Valid) (names : Names gen.Emitted key) :
    Ensures (Full gen.program_.length) (gen.appendInstruction key.code key.k key.jt key.jf)
      (gen.Makes key) := by
  unfold appendInstruction
  cases names with
  | branch jump conditional jtKnown jfKnown =>
    rw [if_pos jump]
    refine (Ensures.check fun always => absurd conditional always).bind fun _ _ => ?_
    refine (withinRange_ensures valid _ jtKnown (by omega)).bind fun first jtReaches => ?_
    have jfKnown' := jtReaches.grows.emitted jfKnown
    have grown := jtReaches.length_le
    refine (withinRange_ensures jtReaches.valid _ jfKnown' (by omega)).bind fun second jfReaches => ?_
    have jtEmitted := jfReaches.grows.emitted jtReaches.emitted
    have grownAgain := jfReaches.length_le
    refine (offset_ensures jtEmitted).bind fun _ jtEq => ?_
    refine (offset_ensures jfReaches.emitted).bind fun _ jfEq => ?_
    subst jtEq jfEq
    have grows := jtReaches.grows.trans jfReaches.grows
    refine (appendBranch_ensures jfReaches.valid jump conditional jtEmitted jfReaches.emitted ?_
      jfReaches.near (fun data => ?_) (fun data => ?_)
      (Names.branch jump conditional (grows.emitted jtKnown) (grows.emitted jfKnown)) (by omega)).mono
      fun _ makes => makes.of_grows grows fun insn member =>
        (jfReaches.adds insn member).elim (jtReaches.adds insn) .inr
    · have near := jtReaches.near
      have emitted := jtReaches.emitted
      unfold kBranchRange Emitted at *
      omega
    · rw [jfReaches.grows.meaning_eq data jtReaches.emitted, jtReaches.same data,
        grows.meaning_eq data jtKnown]
    · rw [jfReaches.same data, jtReaches.grows.meaning_eq data jfKnown, grows.meaning_eq data jfKnown]
  | ret ret jtNull jfNull =>
    have straight : BPF_CLASS key.code ≠ BPF_JMP := by rw [ret]; decide
    rw [if_neg straight, if_pos ret]
    refine (Ensures.check fun given => absurd jfNull given).bind fun _ _ => ?_
    refine (Ensures.check fun given => absurd jtNull given).bind fun _ _ => ?_
    exact appendPlain_ensures valid straight (fun other => absurd ret other) (.ret ret jtNull jfNull) (by omega)
  | next straight continues jtKnown jfNull =>
    rw [if_neg straight, if_neg continues]
    refine (Ensures.check fun given => absurd jfNull given).bind fun _ _ => ?_
    refine (withinRange_ensures valid _ jtKnown (by omega)).bind fun first reaches => ?_
    have near := Nat.le_zero.1 reaches.near
    have grown := reaches.length_le
    refine (offset_ensures reaches.emitted).bind fun _ offsetEq => ?_
    subst offsetEq
    refine (Ensures.check fun far => absurd near far).bind fun _ _ => ?_
    have emitted : first.1 < first.2.program_.length := reaches.emitted
    refine (appendPlain_ensures reaches.valid straight (fun _ => ⟨by omega, fun data => ?_⟩)
      (.next straight continues (reaches.grows.emitted jtKnown) jfNull) (by omega)).mono
      fun _ makes => makes.of_grows reaches.grows reaches.adds
    have last : first.2.program_.length - 1 = first.1 := by omega
    rw [last, reaches.same data, reaches.grows.meaning_eq data jtKnown]

theorem Valid.remember (valid : gen.Valid) {node : Nat} (emitted : gen.Emitted node) (names : Names gen.Emitted key)
    (same : ∀ data, gen.meaning data node = follow data (gen.meaning data) key) :
    { gen with memos_ := (key, node) :: gen.memos_ }.Valid where
  sized := valid.sized
  paired := valid.paired
  lands := valid.lands
  equivalents := valid.equivalents
  memos := by
    intro other found member
    rcases List.mem_cons.1 member with new | old
    · cases new
      exact ⟨emitted, names, same⟩
    · exact valid.memos other found old

theorem lookup_mem {memos : List (MemoKey × Nat)} {node : Nat} (found : memos.lookup key = some node) :
    (key, node) ∈ memos := by
  induction memos with
  | nil => simp at found
  | cons memo rest ih =>
    obtain ⟨other, result⟩ := memo
    rw [List.lookup_cons] at found
    split at found
    next same =>
      cases found
      rw [eq_of_beq same]
      exact List.mem_cons_self
    next => exact List.mem_cons_of_mem _ (ih found)

theorem makeInstruction_ensures (valid : gen.Valid) (names : Names gen.Emitted key) :
    Ensures (Full gen.program_.length) (gen.makeInstruction key.code key.k key.jt key.jf)
      (gen.Makes key) := by
  unfold makeInstruction
  cases lookup : gen.memos_.lookup key with
  | some node =>
    have memo := valid.memos key node (lookup_mem lookup)
    exact ⟨valid, .refl gen, memo.1, memo.2.2, fun _ => .inl⟩
  | none =>
    refine (appendInstruction_ensures valid names).bind fun result makes => ?_
    have known := names.mono fun _ => makes.grows.emitted
    exact ⟨makes.valid.remember makes.emitted known makes.same, makes.grows, makes.emitted, makes.same,
      makes.adds⟩

theorem compile_eq {head : Nat} (emitted : gen.Emitted head) : gen.compile head = .ok (codeAt gen.program_ head) := by
  rw [compile, offset_eq emitted, codeAt_eq_drop_reverse _ _ emitted]
  rfl

theorem closed_codeAt (valid : gen.Valid) {head : Nat} (emitted : gen.Emitted head) :
    Closed (codeAt gen.program_ head) where
  lands := by
    intro ip inside
    have length := codeAt_length gen.program_ head emitted
    have fetch : (codeAt gen.program_ head)[ip] = gen.program_.get ⟨head - ip, by
        unfold Emitted at emitted
        omega⟩ := by
      simp only [codeAt, List.getElem_reverse, List.getElem_take, List.length_take, List.get_eq_getElem]
      congr 1
      unfold Emitted at emitted
      omega
    have lands := valid.lands (head - ip) (by unfold Emitted at emitted; omega)
    rw [fetch, List.get_eq_getElem]
    convert lands using 1
    unfold Emitted at emitted
    omega

/-- Every node the caller holds means, in the linear program, what the graph says. -/
structure Sound (gen : CodeGen) (history : History) : Prop where
  valid : gen.Valid
  emitted : ∀ head, Returned history head → gen.Emitted head
  same : ∀ head, Returned history head → ∀ data, gen.meaning data head = interpret data history head

variable {history : History}

theorem Sound.names (sound : gen.Sound history) (names : Names (Returned history) key) :
    Names gen.Emitted key := names.mono sound.emitted

theorem Sound.step (sound : gen.Sound history) (names : Names (Returned history) key) {node : Nat} {later : CodeGen}
    (makes : gen.Makes key (node, later)) : later.Sound ((key, node) :: history) where
  valid := makes.valid
  emitted := by
    rintro head ⟨other, member⟩
    rcases List.mem_cons.1 member with new | old
    · cases new
      exact makes.emitted
    · exact makes.grows.emitted (sound.emitted head ⟨other, old⟩)
  same := by
    rintro head ⟨other, member⟩ data
    have earlier (known : Nat) (returned : Returned history known) :
        later.meaning data known = interpret data history known := by
      rw [makes.grows.meaning_eq data (sound.emitted known returned), sound.same known returned data]
    by_cases new : node = head
    · subst new
      have meaning := makes.same data
      rw [follow_congr names earlier] at meaning
      funext registers
      rw [interpret, if_pos rfl]
      exact congrFun meaning registers
    · have old : (other, head) ∈ history := by
        rcases List.mem_cons.1 member with first | old
        · exact absurd (Prod.mk.inj first).2.symm new
        · exact old
      funext registers
      rw [interpret, if_neg new, earlier head ⟨other, old⟩]

theorem BuiltFrom.sound {start : CodeGen} {earlier : History} (built : BuiltFrom start earlier gen history)
    (sound : start.Sound earlier) :
    gen.Sound history ∧ start.Grows gen ∧ ∀ head, Returned earlier head → Returned history head := by
  induction built with
  | start => exact ⟨sound, .refl start, fun _ => id⟩
  | call _ names made ih =>
    obtain ⟨sound, grows, kept⟩ := ih
    have makes := (makeInstruction_ensures sound.valid (sound.names names)).of_ok made
    refine ⟨sound.step names makes, grows.trans makes.grows, fun head returned => ?_⟩
    obtain ⟨key, member⟩ := kept head returned
    exact ⟨key, List.mem_cons_of_mem _ member⟩

theorem sound_empty : Sound {} [] where
  valid := valid_empty
  emitted := by rintro head ⟨_, member⟩; cases member
  same := by rintro head ⟨_, member⟩; cases member

/-- A program the linearised graph compiles to, from one of its nodes. -/
structure Linearises (history : History) (head : Nat) (program : Program) : Prop where
  nonempty : 0 < program.length
  sized : program.length ≤ BPF_MAXINSNS
  closed : Closed program
  same : ∀ data registers, Verifier.loop program data (program.length + 1) ⟨0, registers⟩ =
    interpret data history head registers

theorem Sound.linearises (sound : gen.Sound history) {head : Nat} (returned : Returned history head) :
    Linearises history head (codeAt gen.program_ head) := by
  have emitted := sound.emitted head returned
  have length := codeAt_length gen.program_ head emitted
  have sized := sound.valid.sized
  have closed := closed_codeAt sound.valid emitted
  have bound : (codeAt gen.program_ head).length ≤ BPF_MAXINSNS := by
    unfold Emitted at emitted
    omega
  refine ⟨by omega, bound, closed, fun data registers => ?_⟩
  rw [← sound.same head returned data]
  exact loop_eq_run data closed (lt_of_le_of_lt bound (by decide)) _ 0 registers (by omega) (by omega)

end CodeGen

open CodeGen in
/-- Linearisation is correct for every graph: a well-named call fails only when the
program is full, and every node ever returned compiles to a closed program that
runs as the graph says, now and after any further calls. -/
theorem codeGen_linearises {gen : CodeGen} {history : History} (built : Built gen history) :
    (∀ key, Names (Returned history) key →
      (∃ node later, gen.makeInstruction key.code key.k key.jt key.jf = .ok (node, later)) ∨
      gen.makeInstruction key.code key.k key.jt key.jf = .error .programTooLong ∧
        BPF_MAXINSNS < gen.program_.length + 3) ∧
    ∀ head, Returned history head → ∃ program, gen.compile head = .ok program ∧
      Linearises history head program ∧
      ∀ later longer, BuiltFrom gen history later longer →
        later.compile head = .ok program ∧ Linearises longer head program := by
  have ⟨sound, _, _⟩ := BuiltFrom.sound built sound_empty
  refine ⟨fun key names => ?_, fun head returned => ?_⟩
  · have ensured := makeInstruction_ensures sound.valid (sound.names names)
    cases made : gen.makeInstruction key.code key.k key.jt key.jf with
    | ok result => exact .inl ⟨result.1, result.2, rfl⟩
    | error failure =>
      have full := ensured.of_error made
      exact .inr ⟨congrArg Except.error full.1, full.2⟩
  · have emitted := sound.emitted head returned
    refine ⟨codeAt gen.program_ head, compile_eq emitted, sound.linearises returned, ?_⟩
    intro later longer more
    have ⟨laterSound, grows, kept⟩ := BuiltFrom.sound more sound
    have same := codeAt_grows grows head emitted
    refine ⟨same ▸ compile_eq (grows.emitted emitted), same ▸ laterSound.linearises (kept head returned)⟩

/-- A branch between two verdicts, as the first three calls of a run. -/
theorem codeGen_linearises_branch :
    ∃ gen history program, Built gen history ∧ gen.compile 2 = .ok program ∧
      program = [⟨BPF_JMP + BPF_JEQ + BPF_K, 1, 0, 7⟩, ⟨BPF_RET + BPF_K, 0, 0, SECCOMP_RET_KILL⟩,
        ⟨BPF_RET + BPF_K, 0, 0, SECCOMP_RET_ALLOW⟩] ∧
      CodeGen.Linearises history 2 program := by
  have allow : Built _ [(⟨BPF_RET + BPF_K, SECCOMP_RET_ALLOW, kNullNode, kNullNode⟩, _)] :=
    .call .start (.ret rfl rfl rfl) rfl
  have kill : Built _ ((⟨BPF_RET + BPF_K, SECCOMP_RET_KILL, kNullNode, kNullNode⟩, _) :: _) :=
    .call allow (.ret rfl rfl rfl) rfl
  have branch : Built _ ((⟨BPF_JMP + BPF_JEQ + BPF_K, 7, 0, 1⟩, _) :: _) :=
    .call kill (.branch rfl (by decide) ⟨_, .tail _ (.head _)⟩ ⟨_, .head _⟩) rfl
  obtain ⟨program, compiled, linear, _⟩ := (codeGen_linearises branch).2 2 ⟨_, .head _⟩
  refine ⟨_, _, program, branch, compiled, ?_, linear⟩
  cases compiled
  rfl

end Libchrome.Bpf
