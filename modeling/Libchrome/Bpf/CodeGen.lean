import Libchrome.Library.Checked
import Libchrome.Bpf.VerifierRun

/-! The assembler that turns a graph of instructions into a filter program. -/

namespace Libchrome.Bpf
open Library.Checked

/-- A node is an index into `program_`; this one, `static_cast<size_t>(-1)`, is never an instruction. -/
def kNullNode : Nat := 2 ^ 64 - 1

def kBranchRange : Nat := 255

structure MemoKey where
  code : BitVec 16
  k : BitVec 32
  jt : Nat
  jf : Nat
  deriving DecidableEq, Repr

/-- The CHECK of the assembler that stopped it. -/
inductive CodeGenCheck where
  | jumpAlwaysRequested
  | jfOfNonBranch
  | jtOfReturn
  | nextNotAdjacent
  | jtOutOfRange
  | jfOutOfRange
  | offsetOfNonBranch
  | programTooLong
  | equivalentSize
  | bogusOffsetTarget
  | equivalentAt
  deriving DecidableEq, Repr

structure CodeGen where
  /-- The program in reverse: indices stay stable while instructions are added. -/
  program_ : List SockFilter := []
  equivalent_ : List Nat := []
  memos_ : List (MemoKey × Nat) := []
  deriving DecidableEq

namespace CodeGen

def offset (gen : CodeGen) (target : Nat) : Except CodeGenCheck Nat :=
  if target < gen.program_.length then .ok (gen.program_.length - 1 - target)
  else .error .bogusOffsetTarget

/-- The first CHECKs of `Append`. -/
def checkOffsets (code : BitVec 16) (jt jf : Nat) : Except CodeGenCheck Unit :=
  if BPF_CLASS code = BPF_JMP ∧ BPF_OP code ≠ BPF_JA then do
    check (jt ≤ kBranchRange) .jtOutOfRange
    check (jf ≤ kBranchRange) .jfOutOfRange
  else check (jt = 0 ∧ jf = 0) .offsetOfNonBranch

def append (gen : CodeGen) (code : BitVec 16) (k : BitVec 32) (jt jf : Nat) :
    Except CodeGenCheck (Nat × CodeGen) := do
  checkOffsets code jt jf
  check (gen.program_.length < BPF_MAXINSNS) .programTooLong
  check (gen.program_.length = gen.equivalent_.length) .equivalentSize
  let res := gen.program_.length
  return (res, { gen with
    program_ := gen.program_ ++ [⟨code, BitVec.ofNat 8 jt, BitVec.ofNat 8 jf, k⟩]
    equivalent_ := gen.equivalent_ ++ [res] })

/-- A node equivalent to `target` that is at most `range` instructions away. -/
def withinRange (gen : CodeGen) (target range : Nat) : Except CodeGenCheck (Nat × CodeGen) := do
  if (← gen.offset target) ≤ range then return (target, gen)
  match gen.equivalent_[target]? with
  | none => throw .equivalentAt
  | some equivalent =>
      if (← gen.offset equivalent) ≤ range then return (equivalent, gen)
      let (jump, gen) ← gen.append (BPF_JMP ||| BPF_JA) (BitVec.ofNat 32 (← gen.offset target)) 0 0
      return (jump, { gen with equivalent_ := gen.equivalent_.set target jump })

def appendInstruction (gen : CodeGen) (code : BitVec 16) (k : BitVec 32) (jt jf : Nat) :
    Except CodeGenCheck (Nat × CodeGen) := do
  if BPF_CLASS code = BPF_JMP then
    check (BPF_OP code ≠ BPF_JA) .jumpAlwaysRequested
    -- The range of jt leaves room for the jump that jf may still need.
    let (jt, gen) ← gen.withinRange jt (kBranchRange - 1)
    let (jf, gen) ← gen.withinRange jf kBranchRange
    gen.append code k (← gen.offset jt) (← gen.offset jf)
  else
    check (jf = kNullNode) .jfOfNonBranch
    if BPF_CLASS code = BPF_RET then
      check (jt = kNullNode) .jtOfReturn
      gen.append code k 0 0
    else
      let (jt, gen) ← gen.withinRange jt 0
      check ((← gen.offset jt) = 0) .nextNotAdjacent
      gen.append code k 0 0

def makeInstruction (gen : CodeGen) (code : BitVec 16) (k : BitVec 32) (jt jf : Nat) :
    Except CodeGenCheck (Nat × CodeGen) := do
  match gen.memos_.lookup ⟨code, k, jt, jf⟩ with
  | some node => return (node, gen)
  | none =>
      let (node, gen) ← gen.appendInstruction code k jt jf
      return (node, { gen with memos_ := (⟨code, k, jt, jf⟩, node) :: gen.memos_ })

def compile (gen : CodeGen) (head : Nat) : Except CodeGenCheck Program := do
  return gen.program_.reverse.drop (← gen.offset head)

end CodeGen
/-! The instruction graph a caller builds, what it means, and the invariant that
makes the linear program mean the same. -/

open Library.ForwardCode

/-- The calls made so far with the nodes they returned, newest first. -/
abbrev History := List (MemoKey × Nat)

/-- The effect of one requested instruction, given the meaning of its successors. -/
def follow (data : ArchSeccompData) (successor : Nat → Registers → Option Outcome)
    (key : MemoKey) (registers : Registers) : Option Outcome :=
  match transfer data ⟨key.code, 0, 0, key.k⟩ registers with
  | .halt result => some result
  | .next registers => successor key.jt registers
  | .branch taken registers => successor (if taken then key.jt else key.jf) registers

/-- Interprets the graph itself: successors are looked up among the earlier calls. -/
def interpret (data : ArchSeccompData) : History → Nat → Registers → Option Outcome
  | [], _, _ => none
  | (key, node) :: older, head, registers =>
      if node = head then follow data (interpret data older) key registers
      else interpret data older head registers

/-- A request names as many successors as its instruction class has, all of them known. -/
inductive Names (known : Nat → Prop) (key : MemoKey) : Prop where
  | branch (jump : BPF_CLASS key.code = BPF_JMP) (conditional : BPF_OP key.code ≠ BPF_JA)
      (jt : known key.jt) (jf : known key.jf)
  | ret (ret : BPF_CLASS key.code = BPF_RET) (jt : key.jt = kNullNode) (jf : key.jf = kNullNode)
  | next (straight : BPF_CLASS key.code ≠ BPF_JMP) (continues : BPF_CLASS key.code ≠ BPF_RET)
      (jt : known key.jt) (jf : key.jf = kNullNode)

theorem Names.mono {first second : Nat → Prop} {key : MemoKey} (names : Names first key)
    (weaker : ∀ node, first node → second node) : Names second key := by
  cases names with
  | branch jump conditional jt jf => exact .branch jump conditional (weaker _ jt) (weaker _ jf)
  | ret ret jt jf => exact .ret ret jt jf
  | next straight continues jt jf => exact .next straight continues (weaker _ jt) jf

def Returned (history : History) (node : Nat) : Prop := ∃ key, (key, node) ∈ history

/-- Assembler states reached from `start` by calls that only name nodes returned earlier. -/
inductive BuiltFrom (start : CodeGen) (earlier : History) : CodeGen → History → Prop where
  | start : BuiltFrom start earlier start earlier
  | call {gen later : CodeGen} {history : History} {key : MemoKey} {node : Nat} :
      BuiltFrom start earlier gen history → Names (Returned history) key →
      gen.makeInstruction key.code key.k key.jt key.jf = .ok (node, later) →
      BuiltFrom start earlier later ((key, node) :: history)

abbrev Built : CodeGen → History → Prop := BuiltFrom {} []

namespace CodeGen

/-- What the program emitted so far does from `node` on. -/
def meaning (gen : CodeGen) (data : ArchSeccompData) (node : Nat) (registers : Registers) :
    Option Outcome :=
  run (exec data) (codeAt gen.program_ node) registers

def Emitted (gen : CodeGen) (node : Nat) : Prop := node < gen.program_.length

/-- `later` was reached from `gen` by emitting more instructions. -/
def Grows (gen later : CodeGen) : Prop := gen.program_ <+: later.program_

theorem Grows.refl (gen : CodeGen) : gen.Grows gen := List.prefix_rfl

theorem Grows.trans {first second third : CodeGen} (one : first.Grows second) (two : second.Grows third) :
    first.Grows third := List.IsPrefix.trans one two

theorem Grows.length_le {gen later : CodeGen} (grows : gen.Grows later) :
    gen.program_.length ≤ later.program_.length := List.IsPrefix.length_le grows

theorem Grows.emitted {gen later : CodeGen} (grows : gen.Grows later) {node : Nat}
    (emitted : gen.Emitted node) : later.Emitted node := lt_of_lt_of_le emitted grows.length_le

/-- Emitted code keeps its meaning while the program grows. -/
theorem Grows.meaning_eq {gen later : CodeGen} (grows : gen.Grows later) (data : ArchSeccompData)
    {node : Nat} (emitted : gen.Emitted node) : later.meaning data node = gen.meaning data node := by
  funext registers
  unfold meaning
  rw [codeAt_grows grows node emitted]

theorem follow_congr {data : ArchSeccompData} {key : MemoKey} {known : Nat → Prop} (names : Names known key)
    {first second : Nat → Registers → Option Outcome} (same : ∀ node, known node → first node = second node) :
    follow data first key = follow data second key := by
  funext registers
  unfold follow
  cases moved : transfer data ⟨key.code, 0, 0, key.k⟩ registers with
  | halt result => rfl
  | next next =>
    have straight := transfer_next moved
    cases names with
    | branch jump _ _ _ => exact absurd jump straight.1
    | ret ret _ _ => exact absurd ret straight.2
    | next _ _ jt _ => simp only [same _ jt]
  | branch taken next =>
    have jump := transfer_branch moved
    cases names with
    | branch _ _ jt jf =>
      cases taken
      · simp only [Bool.false_eq_true, if_false, same _ jf]
      · simp only [if_true, same _ jt]
    | ret ret _ _ => rw [ret] at jump; exact absurd jump (by decide)
    | next straight _ _ _ => exact absurd jump straight

/-- What holds between calls. -/
structure Valid (gen : CodeGen) : Prop where
  sized : gen.program_.length ≤ BPF_MAXINSNS
  paired : gen.equivalent_.length = gen.program_.length
  lands : ∀ node (inside : node < gen.program_.length), Lands gen.program_[node] node
  equivalents : ∀ node other, gen.equivalent_[node]? = some other →
    gen.Emitted other ∧ ∀ data, gen.meaning data other = gen.meaning data node
  memos : ∀ key node, (key, node) ∈ gen.memos_ → gen.Emitted node ∧ Names gen.Emitted key ∧
    ∀ data, gen.meaning data node = follow data (gen.meaning data) key

theorem valid_empty : Valid {} where
  sized := by decide
  paired := rfl
  lands := by intro node inside; exact absurd inside (Nat.not_lt_zero node)
  equivalents := by intro node other found; simp at found
  memos := by intro key node found; simp at found

/-- The state after one physical append. -/
def push (gen : CodeGen) (insn : SockFilter) : CodeGen :=
  { gen with
    program_ := gen.program_ ++ [insn]
    equivalent_ := gen.equivalent_ ++ [gen.program_.length] }

theorem grows_push (gen : CodeGen) (insn : SockFilter) : gen.Grows (gen.push insn) :=
  List.prefix_append _ _

theorem length_push (gen : CodeGen) (insn : SockFilter) :
    (gen.push insn).program_.length = gen.program_.length + 1 := by
  simp only [push, List.length_append, List.length_cons, List.length_nil]

theorem meaning_push (gen : CodeGen) (insn : SockFilter) (data : ArchSeccompData) (registers : Registers) :
    (gen.push insn).meaning data gen.program_.length registers =
      match exec data insn registers with
      | .halt result => some result
      | .skip count next =>
          if count < gen.program_.length then gen.meaning data (gen.program_.length - 1 - count) next
          else none := by
  have inside : gen.program_.length < (gen.program_ ++ [insn]).length := by simp
  have fetched : (gen.program_ ++ [insn])[gen.program_.length] = insn := by simp
  unfold meaning push
  rw [run_codeAt _ _ _ inside, fetched]
  cases exec data insn registers with
  | halt result => rfl
  | skip count next =>
    by_cases below : count < gen.program_.length
    · simp only [if_pos below]
      rw [codeAt_append _ _ _ (by omega)]
    · simp only [if_neg below]

theorem Valid.push {gen : CodeGen} (valid : gen.Valid) {insn : SockFilter}
    (lands : Lands insn gen.program_.length) (room : gen.program_.length < BPF_MAXINSNS) :
    (gen.push insn).Valid where
  sized := by rw [length_push]; exact room
  paired := by simp only [CodeGen.push, List.length_append, valid.paired, List.length_cons, List.length_nil]
  lands := by
    intro node inside
    rw [length_push] at inside
    by_cases last : node < gen.program_.length
    · simpa only [CodeGen.push, List.getElem_append_left last] using valid.lands node last
    · obtain rfl : node = gen.program_.length := by omega
      simpa only [CodeGen.push, List.getElem_concat_length] using lands
  equivalents := by
    intro node other found
    have grows := gen.grows_push insn
    have paired := valid.paired
    by_cases last : node < gen.equivalent_.length
    · rw [CodeGen.push, List.getElem?_append_left last] at found
      obtain ⟨emitted, same⟩ := valid.equivalents node other found
      refine ⟨grows.emitted emitted, fun data => ?_⟩
      rw [grows.meaning_eq data emitted, same, grows.meaning_eq data (show node < gen.program_.length by omega)]
    · rw [CodeGen.push, List.getElem?_append_right (by omega)] at found
      obtain ⟨below, rfl⟩ := List.getElem?_eq_some_iff.1 found
      simp only [List.length_cons, List.length_nil] at below
      obtain rfl : node = gen.program_.length := by omega
      refine ⟨?_, fun data => ?_⟩
      · simp only [Emitted, length_push, List.getElem_singleton]
        omega
      · simp only [List.getElem_singleton]
  memos := by
    intro key node found
    have grows := gen.grows_push insn
    obtain ⟨emitted, names, same⟩ := valid.memos key node found
    refine ⟨grows.emitted emitted, names.mono (fun _ => grows.emitted), fun data => ?_⟩
    rw [grows.meaning_eq data emitted, same]
    exact follow_congr names (fun _ known => (grows.meaning_eq data known).symm)

end CodeGen
end Libchrome.Bpf
