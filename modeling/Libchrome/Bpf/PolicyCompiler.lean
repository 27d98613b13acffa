import Mathlib.Data.BitVec
import Mathlib.Tactic.Common
import Libchrome.Bpf.CodeGen
import Libchrome.Bpf.Dsl

/-! The system call numbers the compiler enumerates, with the x86-64 ranges. -/

namespace Libchrome.Bpf

/-- An inclusive range of system call numbers. -/
structure SyscallRange where
  first : BitVec 32
  last : BitVec 32

abbrev MIN_SYSCALL : BitVec 32 := 0
abbrev MAX_PUBLIC_SYSCALL : BitVec 32 := 1024

def kValidSyscallRanges : List SyscallRange := [⟨MIN_SYSCALL, MAX_PUBLIC_SYSCALL⟩]

inductive SyscallSet where
  | ALL
  | VALID_ONLY
  | INVALID_ONLY
  deriving DecidableEq, Repr

namespace SyscallSet

def isValid (num : BitVec 32) : Bool :=
  kValidSyscallRanges.any fun range => num ≥ range.first && num ≤ range.last

structure Iterator where
  set_ : SyscallSet
  done_ : Bool
  num_ : BitVec 32
  deriving DecidableEq, Repr

/-- The loop of `NextSyscall` over the valid ranges. -/
def Iterator.nextInRanges (want_valid want_invalid : Bool) (num_ : BitVec 32) :
    List SyscallRange → Option (BitVec 32)
  | [] => none
  | range :: rest =>
      if want_invalid ∧ range.first > 0 ∧ num_ < range.first - 1 then some (range.first - 1)
      else if want_valid ∧ num_ < range.first then some range.first
      else if want_valid ∧ num_ < range.last then some (num_ + 1)
      else if want_invalid ∧ num_ ≤ range.last then some (range.last + 1)
      else nextInRanges want_valid want_invalid num_ rest

/-- The number after `num_` in the set, or 0 when there is none. -/
def Iterator.nextSyscall (iterator : Iterator) : BitVec 32 :=
  let want_valid := iterator.set_ ≠ .INVALID_ONLY
  let want_invalid := iterator.set_ ≠ .VALID_ONLY
  match nextInRanges want_valid want_invalid iterator.num_ kValidSyscallRanges with
  | some next => next
  | none =>
      if want_invalid ∧ iterator.num_ < 0x7fffffff then 0x7fffffff
      else if want_invalid ∧ iterator.num_ < 0x80000000 then 0x80000000
      else if want_invalid ∧ iterator.num_ < 0xffffffff then 0xffffffff
      else 0

/-- `operator++`. -/
def Iterator.advance (iterator : Iterator) : Iterator :=
  let num := iterator.nextSyscall
  { iterator with num_ := num, done_ := iterator.done_ || num = 0 }

def beginIterator (set : SyscallSet) : Iterator :=
  let iterator : Iterator := ⟨set, false, 0⟩
  if set = (if isValid 0 then .INVALID_ONLY else .VALID_ONLY) then iterator.advance else iterator

def endIterator (set : SyscallSet) : Iterator := ⟨set, true, 0⟩

/-- The numbers a range-based loop visits from `iterator` on, at most `fuel` of them. -/
def elementsFrom : Nat → Iterator → List (BitVec 32)
  | 0, _ => []
  | fuel + 1, iterator =>
      if iterator = endIterator iterator.set_ then []
      else iterator.num_ :: elementsFrom fuel iterator.advance

/-- The numbers of a set in iteration order. There are no more than 2^32 of them. -/
def elements (set : SyscallSet) : List (BitVec 32) := elementsFrom (2 ^ 32) set.beginIterator

end SyscallSet
/-! The compiler from policies to filter programs, for 64-bit x86. -/

open Library.Checked

/-- What stopped a compilation. -/
inductive CompileCheck where
  | codeGen (failure : CodeGenCheck)
  | registry (death : TrapDeath)
  | invalidSyscallsNotDenied
  | escapePcRequired
  | requiredSyscallNotAllowed
  | unsafeTrapsRefused
  | invalidIteratorRange
  | invalidArgumentNumber
  | invalidArgumentWidth
  | zeroMask
  | valueOutsideMask
  | maskExceedsArgument
  | valueExceedsArgument
  | valueOfZeroHalf
  /-- The panic function panics while it is compiled, over and over. -/
  | stackOverflow
  deriving DecidableEq, Repr

structure Policy where
  evaluateSyscall : BitVec 32 → ResultExpr
  invalidSyscall : ResultExpr

/-- `has_unsafe_traps_`, as the constructor computes it. -/
def hasUnsafeTraps (policy : Policy) : Bool :=
  SyscallSet.VALID_ONLY.elements.any (fun sysnum => (policy.evaluateSyscall sysnum).hasUnsafeTraps) ||
    policy.invalidSyscall.hasUnsafeTraps

structure PolicyCompiler where
  policy_ : Policy
  escapepc_ : BitVec 64
  panic_func_ : String → ResultExpr
  has_unsafe_traps_ : Bool
  constructed : has_unsafe_traps_ = hasUnsafeTraps policy_

/-- The constructor, with the panic function it installs. -/
def PolicyCompiler.new (policy : Policy) : PolicyCompiler where
  policy_ := policy
  escapepc_ := 0
  panic_func_ := fun _ => Dsl.kill
  has_unsafe_traps_ := hasUnsafeTraps policy
  constructed := rfl

def PolicyCompiler.dangerousSetEscapePC (pc : PolicyCompiler) (escapepc : BitVec 64) : PolicyCompiler :=
  { pc with escapepc_ := escapepc }

def PolicyCompiler.setPanicFunc (pc : PolicyCompiler) (panic_func : String → ResultExpr) : PolicyCompiler :=
  { pc with panic_func_ := panic_func }

/-- The parts of the compiler that change while it runs. -/
structure CompileState where
  gen_ : CodeGen
  registry_ : Trap

abbrev Emit := StateT CompileState (Except CompileCheck)

/-- `__NR_rt_sigprocmask` and `__NR_rt_sigreturn`. -/
def kSyscallsRequiredForUnsafeTraps : List (BitVec 32) := [14, 15]

def hasExactlyOneBit (x : BitVec 32) : Bool := x ≠ 0 && x &&& (x - 1) = 0

inductive ArgHalf where
  | LOWER
  | UPPER
  deriving DecidableEq, Repr

structure Range where
  from_ : BitVec 32
  node : Nat
  deriving DecidableEq, Repr

namespace PolicyCompiler

def require (condition : Prop) [Decidable condition] (failure : CompileCheck) : Emit Unit :=
  fun state => do
    check condition failure
    return ((), state)

def makeInstruction (code : BitVec 16) (k : BitVec 32) (jt jf : Nat) : Emit Nat := fun state =>
  match state.gen_.makeInstruction code k jt jf with
  | .ok (node, gen) => .ok (node, { state with gen_ := gen })
  | .error failure => .error (.codeGen failure)

def trap (fnc : TrapFnc) (aux : BitVec 64) (safe : Bool) : Emit Nat := fun state =>
  match state.registry_.add fnc aux safe with
  | .ok (trap_id, registry) =>
      makeInstruction (BPF_RET + BPF_K) (SECCOMP_RET_TRAP + trap_id.setWidth 32) kNullNode kNullNode
        { state with registry_ := registry }
  | .error death => .error (.registry death)

/-- `Return`. -/
def return_ (pc : PolicyCompiler) (ret : BitVec 32) : Emit Nat :=
  if pc.has_unsafe_traps_ ∧ ret &&& SECCOMP_RET_ACTION = SECCOMP_RET_ERRNO then
    trap .ReturnErrno ((ret &&& SECCOMP_RET_DATA).setWidth 64) true
  else makeInstruction (BPF_RET + BPF_K) ret kNullNode kNullNode

/-- The sequences of `MaskedEqualHalf` that test `(word at idx) & mask` against `value`. -/
def maskedWord (idx mask value : BitVec 32) (passed failed : Nat) : Emit Nat :=
  if mask = 0 then do
    require (value = 0) .valueOfZeroHalf
    return passed
  else if mask = BitVec.allOnes 32 then do
    let test ← makeInstruction (BPF_JMP + BPF_JEQ + BPF_K) value passed failed
    makeInstruction (BPF_LD + BPF_W + BPF_ABS) idx test kNullNode
  else if value = 0 then do
    -- passed and failed are swapped on purpose.
    let test ← makeInstruction (BPF_JMP + BPF_JSET + BPF_K) mask failed passed
    makeInstruction (BPF_LD + BPF_W + BPF_ABS) idx test kNullNode
  else if mask = value ∧ hasExactlyOneBit mask then do
    let test ← makeInstruction (BPF_JMP + BPF_JSET + BPF_K) mask passed failed
    makeInstruction (BPF_LD + BPF_W + BPF_ABS) idx test kNullNode
  else do
    let test ← makeInstruction (BPF_JMP + BPF_JEQ + BPF_K) value passed failed
    let masked ← makeInstruction (BPF_ALU + BPF_AND + BPF_K) mask test kNullNode
    makeInstruction (BPF_LD + BPF_W + BPF_ABS) idx masked kNullNode

/-- The check of `MaskedEqualHalf` that a 32-bit argument is extended by zeros or by its sign. -/
def extendedWord (unexpected64bitArgument : Emit Nat) (argno passed : Nat) : Emit Nat := do
  let invalid_64bit ← unexpected64bitArgument
  let sign ← makeInstruction (BPF_JMP + BPF_JSET + BPF_K) 0x80000000 passed invalid_64bit
  let lower ← makeInstruction (BPF_LD + BPF_W + BPF_ABS) (SECCOMP_ARG_LSB_IDX argno) sign kNullNode
  let ones ← makeInstruction (BPF_JMP + BPF_JEQ + BPF_K) (BitVec.allOnes 32) lower invalid_64bit
  let zeros ← makeInstruction (BPF_JMP + BPF_JEQ + BPF_K) 0 passed ones
  makeInstruction (BPF_LD + BPF_W + BPF_ABS) (SECCOMP_ARG_MSB_IDX argno) zeros kNullNode

/-- `MaskedEqualHalf`; `unexpected64bitArgument` emits the panic result. -/
def maskedEqualHalf (unexpected64bitArgument : Emit Nat) (argno width : Nat)
    (full_mask full_value : BitVec 64) (half : ArgHalf) (passed failed : Nat) : Emit Nat :=
  match half with
  | .UPPER =>
      if width = 4 then extendedWord unexpected64bitArgument argno passed
      else maskedWord (SECCOMP_ARG_MSB_IDX argno) (full_mask.extractLsb' 32 32) (full_value.extractLsb' 32 32)
        passed failed
  | .LOWER =>
      maskedWord (SECCOMP_ARG_LSB_IDX argno) (full_mask.extractLsb' 0 32) (full_value.extractLsb' 0 32)
        passed failed

def maskedEqual (unexpected64bitArgument : Emit Nat) (argno : Int) (width : Nat)
    (mask value : BitVec 64) (passed failed : Nat) : Emit Nat := do
  require (argno ≥ 0 ∧ argno < 6) .invalidArgumentNumber
  require (width = 4 ∨ width = 8) .invalidArgumentWidth
  require (mask ≠ 0) .zeroMask
  require (value = value &&& mask) .valueOutsideMask
  require (width = 4 → mask.extractLsb' 32 32 = 0) .maskExceedsArgument
  require (width = 4 → value.extractLsb' 32 32 = 0) .valueExceedsArgument
  let lower ← maskedEqualHalf unexpected64bitArgument argno.toNat width mask value .LOWER passed failed
  maskedEqualHalf unexpected64bitArgument argno.toNat width mask value .UPPER lower failed

/-- `BoolExprImpl::Compile`. -/
def compileBool (unexpected64bitArgument : Emit Nat) : BoolExpr → Nat → Nat → Emit Nat
  | .constBool value_, then_node, else_node => return if value_ then then_node else else_node
  | .maskedEqual argno_ width_ mask_ value_, then_node, else_node =>
      maskedEqual unexpected64bitArgument argno_ width_ mask_ value_ then_node else_node
  | .negate cond_, then_node, else_node =>
      compileBool unexpected64bitArgument cond_ else_node then_node
  | .and lhs_ rhs_, then_node, else_node => do
      let rhs ← compileBool unexpected64bitArgument rhs_ then_node else_node
      compileBool unexpected64bitArgument lhs_ rhs else_node
  | .or lhs_ rhs_, then_node, else_node => do
      let rhs ← compileBool unexpected64bitArgument rhs_ then_node else_node
      compileBool unexpected64bitArgument lhs_ then_node rhs

/-- `ResultExprImpl::Compile`. -/
def compileExpr (pc : PolicyCompiler) (unexpected64bitArgument : Emit Nat) : ResultExpr → Emit Nat
  | .returnResult ret_ _ => pc.return_ ret_
  | .trapResult func_ arg_ safe_ => trap func_ arg_ safe_
  | .ifThenResult cond_ then_result_ else_result_ => do
      let then_node ← pc.compileExpr unexpected64bitArgument then_result_
      let else_node ← pc.compileExpr unexpected64bitArgument else_result_
      compileBool unexpected64bitArgument cond_ then_node else_node

def unexpected64bitError : String := "Unexpected 64bit argument detected"

/-- `CompileResult` of what the panic function returns. A panic result that compares a
32-bit argument panics in turn; `depth` bounds that recursion. -/
def compilePanic (pc : PolicyCompiler) : Nat → String → Emit Nat
  | 0, _ => throw .stackOverflow
  | depth + 1, error =>
      pc.compileExpr (pc.compilePanic depth unexpected64bitError) (pc.panic_func_ error)

def compileResult (pc : PolicyCompiler) (depth : Nat) (res : ResultExpr) : Emit Nat :=
  pc.compileExpr (pc.compilePanic depth unexpected64bitError) res

/-- The node `FindRanges` gives to one system call number. -/
def nodeOfSyscall (pc : PolicyCompiler) (depth invalid_node : Nat) (sysnum : BitVec 32) : Emit Nat :=
  if SyscallSet.isValid sysnum then pc.compileResult depth (pc.policy_.evaluateSyscall sysnum)
  else return invalid_node

/-- The loop of `FindRanges`, with the range under construction. -/
def findRangesFrom (pc : PolicyCompiler) (depth invalid_node : Nat) :
    List (BitVec 32) → List Range → BitVec 32 → Nat → Emit (List Range)
  | [], ranges, old_sysnum, old_node => return ranges ++ [⟨old_sysnum, old_node⟩]
  | sysnum :: rest, ranges, old_sysnum, old_node => do
      let node ← pc.nodeOfSyscall depth invalid_node sysnum
      if node ≠ old_node then
        pc.findRangesFrom depth invalid_node rest (ranges ++ [⟨old_sysnum, old_node⟩]) sysnum node
      else pc.findRangesFrom depth invalid_node rest ranges old_sysnum old_node

def findRanges (pc : PolicyCompiler) (depth : Nat) : Emit (List Range) := do
  let invalid_node ← pc.compileResult depth pc.policy_.invalidSyscall
  let old_node ← pc.nodeOfSyscall depth invalid_node 0
  pc.findRangesFrom depth invalid_node SyscallSet.ALL.elements [] 0 old_node

def assembleJumpTable : List Range → Emit Nat
  | [] => throw .invalidIteratorRange
  | [range] => return range.node
  | first :: second :: rest => do
      let ranges := first :: second :: rest
      let mid := ranges.length / 2
      have inside : mid < ranges.length := Nat.div_lt_self (Nat.succ_pos _) (by decide)
      let jf ← assembleJumpTable (ranges.take mid)
      let jt ← assembleJumpTable (ranges.drop mid)
      makeInstruction (BPF_JMP + BPF_JGE + BPF_K) ranges[mid].from_ jt jf
termination_by ranges => ranges.length
decreasing_by
  all_goals
    simp only [List.length_take, List.length_drop, List.length_cons]
    omega

def checkSyscallNumber (pc : PolicyCompiler) (depth passed : Nat) : Emit Nat := do
  let invalidX32 ← pc.compilePanic depth "Illegal mixing of system call ABIs"
  makeInstruction (BPF_JMP + BPF_JSET + BPF_K) 0x40000000 invalidX32 passed

def dispatchSyscall (pc : PolicyCompiler) (depth : Nat) : Emit Nat := do
  let ranges ← pc.findRanges depth
  let jumptable ← assembleJumpTable ranges
  let number ← pc.checkSyscallNumber depth jumptable
  makeInstruction (BPF_LD + BPF_W + BPF_ABS) SECCOMP_NR_IDX number kNullNode

def enableUnsafeTraps : Emit Unit := fun state =>
  match state.registry_.enableUnsafeTraps with
  | (true, registry) => .ok ((), { state with registry_ := registry })
  | (false, _) => .error .unsafeTrapsRefused

def maybeAddEscapeHatch (pc : PolicyCompiler) (depth rest : Nat) : Emit Nat := do
  if pc.has_unsafe_traps_ = false then return rest
  enableUnsafeTraps
  let lopc := pc.escapepc_.extractLsb' 0 32
  let hipc := pc.escapepc_.extractLsb' 32 32
  let allowed ← pc.compileResult depth Dsl.allow
  let high ← makeInstruction (BPF_JMP + BPF_JEQ + BPF_K) hipc allowed rest
  let loadHigh ← makeInstruction (BPF_LD + BPF_W + BPF_ABS) SECCOMP_IP_MSB_IDX high kNullNode
  let low ← makeInstruction (BPF_JMP + BPF_JEQ + BPF_K) lopc loadHigh rest
  makeInstruction (BPF_LD + BPF_W + BPF_ABS) SECCOMP_IP_LSB_IDX low kNullNode

def checkArch (pc : PolicyCompiler) (depth passed : Nat) : Emit Nat := do
  let invalid ← pc.compilePanic depth "Invalid audit architecture in BPF filter"
  let test ← makeInstruction (BPF_JMP + BPF_JEQ + BPF_K) SECCOMP_ARCH passed invalid
  makeInstruction (BPF_LD + BPF_W + BPF_ABS) SECCOMP_ARCH_IDX test kNullNode

def assemblePolicy (pc : PolicyCompiler) (depth : Nat) : Emit Nat := do
  let dispatch ← pc.dispatchSyscall depth
  let rest ← pc.maybeAddEscapeHatch depth dispatch
  pc.checkArch depth rest

/-- The CHECKs that `Compile` makes before it assembles anything. -/
def checkPolicy (pc : PolicyCompiler) : Emit Unit := do
  require (pc.policy_.invalidSyscall.isDeny) .invalidSyscallsNotDenied
  if pc.has_unsafe_traps_ then
    require (pc.escapepc_ ≠ 0) .escapePcRequired
    require (kSyscallsRequiredForUnsafeTraps.all fun sysnum => (pc.policy_.evaluateSyscall sysnum).isAllow)
      .requiredSyscallNotAllowed
    enableUnsafeTraps

/-- `Compile`, with nested panics up to `depth`. The registry comes back with the program. -/
def compile (pc : PolicyCompiler) (depth : Nat) (registry : Trap) : Except CompileCheck (Program × Trap) := do
  let ((), state) ← pc.checkPolicy ⟨{}, registry⟩
  let (head, state) ← pc.assemblePolicy depth state
  match state.gen_.compile head with
  | .ok program => return (program, state.registry_)
  | .error failure => throw (.codeGen failure)

end PolicyCompiler
end Libchrome.Bpf
