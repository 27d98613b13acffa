import Libchrome.Bpf.Filter
import Libchrome.Library.ForwardCode

/-! The interpreter that checks compiled filters. Every error stops it with
result 0, so an evaluation is an error message or a filter verdict. -/

namespace Libchrome.Bpf
open Library.ForwardCode

structure Registers where
  accumulator : BitVec 32
  acc_is_valid : Bool
  deriving DecidableEq, Repr

/-- The mutable part of the interpreter's `State`; program and data are parameters. -/
structure State where
  ip : BitVec 32
  registers : Registers
  deriving DecidableEq, Repr

namespace Verifier

def ld (data : ArchSeccompData) (insn : SockFilter) : Except String Registers :=
  if BPF_SIZE insn.code ≠ BPF_W ∨ BPF_MODE insn.code ≠ BPF_ABS ∨ insn.jt ≠ 0 ∨ insn.jf ≠ 0 then
    .error "Invalid BPF_LD instruction"
  else if aligned : insn.k.toNat < archSeccompDataSize ∧ insn.k &&& 3 = 0 then
    .ok ⟨data.word ⟨insn.k.toNat / 4, Nat.div_lt_of_lt_mul (show insn.k.toNat < 4 * 16 from aligned.1)⟩, true⟩
  else .error "Invalid operand in BPF_LD instruction"

/-- The comparison a conditional jump makes, when its operation is one the interpreter knows. -/
def jmpTest (accumulator : BitVec 32) (insn : SockFilter) : Option Bool :=
  if BPF_OP insn.code = BPF_JEQ then some (accumulator = insn.k)
  else if BPF_OP insn.code = BPF_JGT then some (accumulator > insn.k)
  else if BPF_OP insn.code = BPF_JGE then some (accumulator ≥ insn.k)
  else if BPF_OP insn.code = BPF_JSET then some (accumulator &&& insn.k ≠ 0)
  else none

/-- Sums are taken modulo 2^32, the width of `ip`. -/
def jmp (program : Program) (state : State) (insn : SockFilter) : Except String State :=
  if BPF_OP insn.code = BPF_JA then
    if program.length ≤ (state.ip + insn.k + 1).toNat ∨ state.ip + insn.k + 1 ≤ state.ip then
      .error "Invalid BPF_JMP instruction"
    else .ok { state with ip := state.ip + insn.k }
  else if BPF_SRC insn.code ≠ BPF_K ∨ state.registers.acc_is_valid = false ∨
      program.length ≤ (state.ip + insn.jt.setWidth 32 + 1).toNat ∨
      program.length ≤ (state.ip + insn.jf.setWidth 32 + 1).toNat then
    .error "Invalid BPF_JMP instruction"
  else
    match jmpTest state.registers.accumulator insn with
    | some true => .ok { state with ip := state.ip + insn.jt.setWidth 32 }
    | some false => .ok { state with ip := state.ip + insn.jf.setWidth 32 }
    | none => .error "Invalid BPF_JMP instruction"

def ret (insn : SockFilter) : Except String (BitVec 32) :=
  if BPF_SRC insn.code ≠ BPF_K then .error "Invalid BPF_RET instruction"
  else if insn.k &&& SECCOMP_RET_ACTION = SECCOMP_RET_ALLOW ∨
      insn.k &&& SECCOMP_RET_ACTION = SECCOMP_RET_ERRNO ∨
      insn.k &&& SECCOMP_RET_ACTION = SECCOMP_RET_KILL ∨
      insn.k &&& SECCOMP_RET_ACTION = SECCOMP_RET_TRACE ∨
      insn.k &&& SECCOMP_RET_ACTION = SECCOMP_RET_TRAP then .ok insn.k
  else .error "Unexpected return code found in BPF program"

/-- Shifting by 32 is undefined in C++; the model takes the x86 result, which masks the count. -/
def alu (registers : Registers) (insn : SockFilter) : Except String Registers :=
  let set (value : BitVec 32) : Except String Registers := .ok { registers with accumulator := value }
  if BPF_OP insn.code = BPF_NEG then set (-registers.accumulator)
  else if BPF_SRC insn.code ≠ BPF_K then
    .error "Unexpected source operand in arithmetic operation"
  else if BPF_OP insn.code = BPF_ADD then set (registers.accumulator + insn.k)
  else if BPF_OP insn.code = BPF_SUB then set (registers.accumulator - insn.k)
  else if BPF_OP insn.code = BPF_MUL then set (registers.accumulator * insn.k)
  else if BPF_OP insn.code = BPF_DIV then
    if insn.k = 0 then .error "Illegal division by zero" else set (registers.accumulator / insn.k)
  else if BPF_OP insn.code = BPF_MOD then
    if insn.k = 0 then .error "Illegal division by zero" else set (registers.accumulator % insn.k)
  else if BPF_OP insn.code = BPF_OR then set (registers.accumulator ||| insn.k)
  else if BPF_OP insn.code = BPF_XOR then set (registers.accumulator ^^^ insn.k)
  else if BPF_OP insn.code = BPF_AND then set (registers.accumulator &&& insn.k)
  else if BPF_OP insn.code = BPF_LSH then
    if insn.k > 32 then .error "Illegal shift operation"
    else set (registers.accumulator <<< (insn.k.toNat % 32))
  else if BPF_OP insn.code = BPF_RSH then
    if insn.k > 32 then .error "Illegal shift operation"
    else set (registers.accumulator >>> (insn.k.toNat % 32))
  else .error "Invalid operator in arithmetic operation"

inductive Step where
  | done (result : Except String (BitVec 32))
  | next (state : State)

/-- One iteration of the interpreter's loop, with the increment of `ip` that follows it. -/
def step (program : Program) (data : ArchSeccompData) (state : State) : Step :=
  match program[state.ip.toNat]? with
  | none => .done (.error "Invalid instruction pointer in BPF program")
  | some insn =>
      if BPF_CLASS insn.code = BPF_LD then
        match ld data insn with
        | .error message => .done (.error message)
        | .ok registers => .next ⟨state.ip + 1, registers⟩
      else if BPF_CLASS insn.code = BPF_JMP then
        match jmp program state insn with
        | .error message => .done (.error message)
        | .ok state => .next { state with ip := state.ip + 1 }
      else if BPF_CLASS insn.code = BPF_RET then .done (ret insn)
      else if BPF_CLASS insn.code = BPF_ALU then
        match alu state.registers insn with
        | .error message => .done (.error message)
        | .ok registers => .next ⟨state.ip + 1, registers⟩
      else .done (.error "Unexpected instruction in BPF program")

/-- The interpreter's loop, `none` when `fuel` iterations do not finish it. -/
def loop (program : Program) (data : ArchSeccompData) : Nat → State → Option (Except String (BitVec 32))
  | 0, _ => none
  | fuel + 1, state =>
      match step program data state with
      | .done result => some result
      | .next state => loop program data fuel state

/-- `Verifier::EvaluateBPF`. Every iteration moves `ip` forward, so `size() + 1` iterations suffice. -/
def evaluateBPF (program : Program) (data : ArchSeccompData) : Option (Except String (BitVec 32)) :=
  if program.length < 1 ∨ program.length ≥ SECCOMP_MAX_PROGRAM_SIZE then
    some (.error "Invalid program length")
  else loop program data (program.length + 1) ⟨0, ⟨0, false⟩⟩

end Verifier
end Libchrome.Bpf
