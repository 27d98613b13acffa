import Libchrome.Bpf.CodeGenCorrect
import Libchrome.Bpf.PolicyMeaning

/-! What the nodes a compilation emits do, as pre- and postconditions over the
registers and the verdict, with one rule for each kind of instruction. -/

namespace Libchrome.Bpf
open Library.ForwardCode Library.Checked
open CodeGen (follow_congr makeInstruction_ensures)

def SockFilter.returnsErrno (insn : SockFilter) : Prop :=
  BPF_CLASS insn.code = BPF_RET ∧ insn.k &&& SECCOMP_RET_ACTION = SECCOMP_RET_ERRNO

/-- What holds of the compiler's state between instructions. -/
structure CompileState.Sound (unsafeTraps : Bool) (state : CompileState) : Prop where
  valid : state.gen_.Valid
  noErrno : unsafeTraps = true → ∀ insn ∈ state.gen_.program_, ¬insn.returnsErrno

structure CompileState.Grows (state later : CompileState) : Prop where
  gen : state.gen_.Grows later.gen_
  registry : state.registry_.Grows later.registry_

theorem CompileState.Grows.refl (state : CompileState) : state.Grows state :=
  ⟨CodeGen.Grows.refl _, Trap.Grows.refl _⟩

theorem CompileState.Grows.trans {first second third : CompileState} (one : first.Grows second)
    (two : second.Grows third) : first.Grows third :=
  ⟨one.gen.trans two.gen, one.registry.trans two.registry⟩

/-- A filter outcome that expresses a verdict, errors being redirected under unsafe traps. -/
def Answers (unsafeTraps : Bool) (registry : Trap) (verdict : Option Verdict) (outcome : Option Outcome) : Prop :=
  ∃ decision value, verdict = some decision ∧ outcome = some (.ok value) ∧
    (decision.redirect unsafeTraps).EncodedBy registry value

theorem Verdict.EncodedBy.grows {registry later : Trap} {verdict : Verdict} {value : BitVec 32}
    (encoded : verdict.EncodedBy registry value) (grows : registry.Grows later) :
    verdict.EncodedBy later value := by
  cases verdict with
  | returns expected => exact encoded
  | trap key =>
    obtain ⟨id, registered, same⟩ := encoded
    exact ⟨id, grows.handlerOf registered, same⟩

/-- Run from `node` with registers that meet `before`, the program answers as `verdict` says. -/
structure Behaves (unsafeTraps : Bool) (state : CompileState) (node : Nat)
    (before : ArchSeccompData → Registers → Prop) (verdict : ArchSeccompData → Option Verdict) : Prop where
  emitted : state.gen_.Emitted node
  answers : ∀ data registers, before data registers →
    Answers unsafeTraps state.registry_ (verdict data) (state.gen_.meaning data node registers)

/-- The accumulator holds the given word. -/
def Loaded (value : ArchSeccompData → BitVec 32) (data : ArchSeccompData) (registers : Registers) : Prop :=
  registers = ⟨value data, true⟩

def Anytime : ArchSeccompData → Registers → Prop := fun _ _ => True

section Rules
variable {unsafeTraps : Bool} {state later : CompileState} {node : Nat}
  {before after : ArchSeccompData → Registers → Prop} {verdict other : ArchSeccompData → Option Verdict}

theorem Behaves.grows (behaves : Behaves unsafeTraps state node before verdict) (grows : state.Grows later) :
    Behaves unsafeTraps later node before verdict where
  emitted := grows.gen.emitted behaves.emitted
  answers := by
    intro data registers holds
    obtain ⟨decision, value, decided, returned, encoded⟩ := behaves.answers data registers holds
    rw [grows.gen.meaning_eq data behaves.emitted]
    exact ⟨decision, value, decided, returned, encoded.grows grows.registry⟩

/-- The rule of consequence. -/
theorem Behaves.mono (behaves : Behaves unsafeTraps state node before verdict)
    (weaker : ∀ data registers, after data registers → before data registers ∧ verdict data = other data) :
    Behaves unsafeTraps state node after other where
  emitted := behaves.emitted
  answers := by
    intro data registers holds
    have ⟨holds, same⟩ := weaker data registers holds
    exact same ▸ behaves.answers data registers holds

theorem Behaves.weaken (behaves : Behaves unsafeTraps state node Anytime verdict) :
    Behaves unsafeTraps state node before verdict :=
  behaves.mono fun _ _ _ => ⟨trivial, rfl⟩

/-- `emit` keeps the state sound and growing, and `post` holds of what it returns, unless a check fails. -/
def Emits {α : Type} (unsafeTraps : Bool) (emit : Emit α) (state : CompileState)
    (post : α → CompileState → Prop) : Prop :=
  Ensures (fun _ => True) (emit state) fun result =>
    result.2.Sound unsafeTraps ∧ state.Grows result.2 ∧ post result.1 result.2

theorem Emits.bind {α β : Type} {emit : Emit α} {next : α → Emit β} {middle : α → CompileState → Prop}
    {post : β → CompileState → Prop} (first : Emits unsafeTraps emit state middle)
    (rest : ∀ value later, later.Sound unsafeTraps → state.Grows later → middle value later →
      Emits unsafeTraps (next value) later post) :
    Emits unsafeTraps (emit >>= next) state post := by
  refine Ensures.bind first ?_
  rintro ⟨value, later⟩ ⟨sound, grows, holds⟩
  exact (rest value later sound grows holds).mono fun _ ⟨sound, grown, post⟩ => ⟨sound, grows.trans grown, post⟩

theorem Emits.pure {α : Type} {value : α} {post : α → CompileState → Prop} (sound : state.Sound unsafeTraps)
    (holds : post value state) : Emits unsafeTraps (Pure.pure value) state post :=
  ⟨sound, .refl state, holds⟩

theorem Emits.mono {α : Type} {emit : Emit α} {first second : α → CompileState → Prop}
    (emits : Emits unsafeTraps emit state first)
    (weaker : ∀ value later, state.Grows later → first value later → second value later) :
    Emits unsafeTraps emit state second :=
  Ensures.mono emits fun _ ⟨sound, grows, holds⟩ => ⟨sound, grows, weaker _ _ grows holds⟩

theorem emits_require {condition : Prop} [Decidable condition] {failure : CompileCheck}
    (sound : state.Sound unsafeTraps) :
    Emits unsafeTraps (PolicyCompiler.require condition failure) state
      (fun _ later => later = state ∧ condition) := by
  refine Ensures.bind (Ensures.check fun _ => trivial) fun _ holds => ?_
  exact ⟨sound, .refl state, rfl, holds⟩

theorem emits_throw {α : Type} {failure : CompileCheck} {post : α → CompileState → Prop} :
    Emits unsafeTraps (throw failure : Emit α) state post := trivial

theorem emits_makeInstruction {key : MemoKey} (sound : state.Sound unsafeTraps)
    (names : Names state.gen_.Emitted key)
    (legal : unsafeTraps = true → ¬(BPF_CLASS key.code = BPF_RET ∧ key.k &&& SECCOMP_RET_ACTION = SECCOMP_RET_ERRNO)) :
    Emits unsafeTraps (PolicyCompiler.makeInstruction key.code key.k key.jt key.jf) state (fun node later =>
      later.registry_ = state.registry_ ∧ later.gen_.Emitted node ∧
      ∀ data, later.gen_.meaning data node = follow data (state.gen_.meaning data) key) := by
  have ensured := makeInstruction_ensures sound.valid names
  unfold Emits PolicyCompiler.makeInstruction
  cases made : state.gen_.makeInstruction key.code key.k key.jt key.jf with
  | error failure => trivial
  | ok result =>
    obtain ⟨node, gen⟩ := result
    have makes := ensured.of_ok made
    refine ⟨⟨makes.valid, fun mode insn member returns => ?_⟩, ⟨makes.grows, .refl _⟩, rfl, makes.emitted,
      fun data => ?_⟩
    · rcases makes.adds insn member with old | jump | ⟨code, k⟩
      · exact sound.noErrno mode insn old returns
      · exact absurd (jump.1.symm.trans returns.1) (by decide)
      · exact legal mode ⟨code ▸ returns.1, k ▸ returns.2⟩
    · rw [makes.same data]
      exact follow_congr names fun node known => makes.grows.meaning_eq data known

theorem Names.straight {known : Nat → Prop} {key : MemoKey} {kind : BitVec 16} (class_eq : BPF_CLASS key.code = kind)
    (jump : kind ≠ BPF_JMP) (ret : kind ≠ BPF_RET) (jt : known key.jt) (jf : key.jf = kNullNode) :
    Names known key :=
  .next (class_eq ▸ jump) (class_eq ▸ ret) jt jf

/-- The byte offset of a word of the record. -/
def wordOffset (index : Fin 16) : BitVec 32 := BitVec.ofNat 32 (4 * index.val)

theorem ld_word (data : ArchSeccompData) (index : Fin 16) :
    Verifier.ld data ⟨BPF_LD + BPF_W + BPF_ABS, 0, 0, wordOffset index⟩ = .ok ⟨data.word index, true⟩ := by
  have aligned : ∀ index, (wordOffset index).toNat < archSeccompDataSize ∧ wordOffset index &&& 3 = 0 := by decide
  have back : ∀ index, (wordOffset index).toNat / 4 = index.val := by decide
  have encoding : ¬(BPF_SIZE (BPF_LD + BPF_W + BPF_ABS) ≠ BPF_W ∨ BPF_MODE (BPF_LD + BPF_W + BPF_ABS) ≠ BPF_ABS ∨
      (0 : BitVec 8) ≠ 0 ∨ (0 : BitVec 8) ≠ 0) := by decide
  rw [Verifier.ld, if_neg encoding, dif_pos (aligned index)]
  simp only [back]

theorem emits_load (sound : state.Sound unsafeTraps) (index : Fin 16) {next : Nat}
    (behaves : Behaves unsafeTraps state next (Loaded (·.word index)) verdict) :
    Emits unsafeTraps (PolicyCompiler.makeInstruction (BPF_LD + BPF_W + BPF_ABS) (wordOffset index) next kNullNode)
      state (fun node later => Behaves unsafeTraps later node Anytime verdict) := by
  have load : BPF_CLASS (BPF_LD + BPF_W + BPF_ABS) = BPF_LD := by decide
  have names : Names state.gen_.Emitted ⟨BPF_LD + BPF_W + BPF_ABS, wordOffset index, next, kNullNode⟩ :=
    .straight load (by decide) (by decide) behaves.emitted rfl
  apply (emits_makeInstruction sound names fun _ ret => absurd (load.symm.trans ret.1) (by decide)).mono
  intro node later _ made
  refine ⟨made.2.1, fun data registers _ => ?_⟩
  rw [made.2.2 data, made.1, follow, transfer_ld data registers load, ld_word]
  exact behaves.answers data _ rfl

/-- The comparisons that compiled conditional jumps make. -/
inductive Test where
  | equal
  | atLeast
  | set
  deriving DecidableEq

def Test.code : Test → BitVec 16
  | equal => BPF_JMP + BPF_JEQ + BPF_K
  | atLeast => BPF_JMP + BPF_JGE + BPF_K
  | set => BPF_JMP + BPF_JSET + BPF_K

def Test.holds (test : Test) (accumulator k : BitVec 32) : Bool :=
  match test with
  | equal => accumulator = k
  | atLeast => accumulator ≥ k
  | set => accumulator &&& k ≠ 0

theorem jmpTest_code (test : Test) (accumulator k : BitVec 32) :
    Verifier.jmpTest accumulator ⟨test.code, 0, 0, k⟩ = some (test.holds accumulator k) := by
  cases test <;> simp [Verifier.jmpTest, Test.code, Test.holds, BPF_OP]

/-- A conditional jump does what its successors agree on, each under the outcome that leads to it. -/
theorem emits_test (test : Test) (sound : state.Sound unsafeTraps) {k : BitVec 32} {jt jf : Nat}
    (loaded : ∀ data registers, before data registers → registers.acc_is_valid = true)
    (onTrue : Behaves unsafeTraps state jt
      (fun data registers => before data registers ∧ test.holds registers.accumulator k = true) verdict)
    (onFalse : Behaves unsafeTraps state jf
      (fun data registers => before data registers ∧ test.holds registers.accumulator k = false) verdict) :
    Emits unsafeTraps (PolicyCompiler.makeInstruction test.code k jt jf) state
      (fun node later => Behaves unsafeTraps later node before verdict) := by
  have jump : BPF_CLASS test.code = BPF_JMP := by cases test <;> decide
  have conditional : BPF_OP test.code ≠ BPF_JA := by cases test <;> decide
  have source : BPF_SRC test.code = BPF_K := by cases test <;> decide
  have names : Names state.gen_.Emitted ⟨test.code, k, jt, jf⟩ :=
    .branch jump conditional onTrue.emitted onFalse.emitted
  apply (emits_makeInstruction sound names fun _ ret => absurd (jump.symm.trans ret.1) (by decide)).mono
  intro node later _ made
  refine ⟨made.2.1, fun data registers holds => ?_⟩
  rw [made.2.2 data, made.1, follow, transfer_jmp data registers jump source (loaded data registers holds),
    jmpTest_code]
  cases outcome : test.holds registers.accumulator k with
  | true => exact onTrue.answers data registers ⟨holds, outcome⟩
  | false => exact onFalse.answers data registers ⟨holds, outcome⟩

/-- A conditional jump on a loaded word between two nodes. -/
theorem emits_choice (test : Test) (sound : state.Sound unsafeTraps) {value : ArchSeccompData → BitVec 32}
    {k : BitVec 32} {jt jf : Nat} {first second : ArchSeccompData → Option Verdict}
    (onTrue : Behaves unsafeTraps state jt (Loaded value) first)
    (onFalse : Behaves unsafeTraps state jf (Loaded value) second) :
    Emits unsafeTraps (PolicyCompiler.makeInstruction test.code k jt jf) state
      (fun node later => Behaves unsafeTraps later node (Loaded value)
        fun data => if test.holds (value data) k then first data else second data) := by
  apply emits_test test sound
  · intro data registers holds
    rw [holds]
  · apply onTrue.mono
    intro data registers holds
    obtain ⟨rfl, outcome⟩ := holds
    exact ⟨rfl, (if_pos outcome).symm⟩
  · apply onFalse.mono
    intro data registers holds
    obtain ⟨rfl, outcome⟩ := holds
    exact ⟨rfl, (if_neg (Bool.eq_false_iff.1 outcome)).symm⟩

theorem emits_mask (sound : state.Sound unsafeTraps) {value : ArchSeccompData → BitVec 32} {mask : BitVec 32}
    {next : Nat} (behaves : Behaves unsafeTraps state next (Loaded fun data => value data &&& mask) verdict) :
    Emits unsafeTraps (PolicyCompiler.makeInstruction (BPF_ALU + BPF_AND + BPF_K) mask next kNullNode) state
      (fun node later => Behaves unsafeTraps later node (Loaded value) verdict) := by
  have arithmetic : BPF_CLASS (BPF_ALU + BPF_AND + BPF_K) = BPF_ALU := by decide
  have names : Names state.gen_.Emitted ⟨BPF_ALU + BPF_AND + BPF_K, mask, next, kNullNode⟩ :=
    .straight arithmetic (by decide) (by decide) behaves.emitted rfl
  apply (emits_makeInstruction sound names fun _ ret => absurd (arithmetic.symm.trans ret.1) (by decide)).mono
  intro node later _ made
  refine ⟨made.2.1, fun data registers holds => ?_⟩
  have masked : Verifier.alu registers ⟨BPF_ALU + BPF_AND + BPF_K, 0, 0, mask⟩ =
      .ok { registers with accumulator := registers.accumulator &&& mask } := by
    simp [Verifier.alu, BPF_OP, BPF_SRC]
  rw [made.2.2 data, made.1, follow, transfer_alu data registers arithmetic, masked]
  apply behaves.answers
  rw [holds]
  rfl

theorem ret_action {k : BitVec 32} (legal : IsReturnValue k ∨ k &&& SECCOMP_RET_ACTION = SECCOMP_RET_TRAP) :
    Verifier.ret ⟨BPF_RET + BPF_K, 0, 0, k⟩ = .ok k := by
  have source : ¬BPF_SRC (BPF_RET + BPF_K) ≠ BPF_K := by decide
  rw [Verifier.ret, if_neg source, if_pos]
  simp only [IsReturnValue, isAction, decide_eq_true_eq] at legal
  tauto

/-- A return instruction answers with its own operand. -/
theorem emits_return (sound : state.Sound unsafeTraps) {k : BitVec 32} {decision : Verdict}
    (legal : IsReturnValue k ∨ k &&& SECCOMP_RET_ACTION = SECCOMP_RET_TRAP)
    (noErrno : unsafeTraps = true → k &&& SECCOMP_RET_ACTION ≠ SECCOMP_RET_ERRNO)
    (encoded : (decision.redirect unsafeTraps).EncodedBy state.registry_ k) :
    Emits unsafeTraps (PolicyCompiler.makeInstruction (BPF_RET + BPF_K) k kNullNode kNullNode) state
      (fun node later => Behaves unsafeTraps later node Anytime fun _ => some decision) := by
  have ret : BPF_CLASS (BPF_RET + BPF_K) = BPF_RET := by decide
  have names : Names state.gen_.Emitted ⟨BPF_RET + BPF_K, k, kNullNode, kNullNode⟩ := .ret ret rfl rfl
  apply (emits_makeInstruction sound names fun mode ret => noErrno mode ret.2).mono
  intro node later _ made
  refine ⟨made.2.1, fun data registers _ => ?_⟩
  rw [made.2.2 data, made.1, follow, transfer_ret data registers ret, ret_action legal]
  exact ⟨decision, k, rfl, rfl, encoded⟩

end Rules
end Libchrome.Bpf
