import Libchrome.Bpf.VerifierRun

/-! The classic BPF machine, as far as filters without index register and scratch memory go: an instruction
is told by its whole code, and what the machine cannot do leaves it without a result. -/

namespace Libchrome.Bpf.Classic
open Library.ForwardCode

inductive Arithmetic where
  | add | sub | mul | div | or | and | lsh | rsh | mod | xor
  deriving DecidableEq, Repr

inductive Comparison where
  | jeq | jgt | jge | jset
  deriving DecidableEq, Repr

inductive Operation where
  | load
  | arithmetic (op : Arithmetic)
  | neg
  | jumpAlways
  | jump (test : Comparison)
  | retK
  | retA
  deriving DecidableEq, Repr

/-- `BPF_A`, the return value that is the accumulator. -/
abbrev BPF_A : BitVec 16 := 0x10

def Arithmetic.op : Arithmetic → BitVec 16
  | add => BPF_ADD
  | sub => BPF_SUB
  | mul => BPF_MUL
  | div => BPF_DIV
  | or => BPF_OR
  | and => BPF_AND
  | lsh => BPF_LSH
  | rsh => BPF_RSH
  | mod => BPF_MOD
  | xor => BPF_XOR

def Comparison.op : Comparison → BitVec 16
  | jeq => BPF_JEQ
  | jgt => BPF_JGT
  | jge => BPF_JGE
  | jset => BPF_JSET

def Operation.code : Operation → BitVec 16
  | load => BPF_LD ||| BPF_W ||| BPF_ABS
  | arithmetic op => BPF_ALU ||| op.op ||| BPF_K
  | neg => BPF_ALU ||| BPF_NEG
  | jumpAlways => BPF_JMP ||| BPF_JA
  | jump test => BPF_JMP ||| test.op ||| BPF_K
  | retK => BPF_RET ||| BPF_K
  | retA => BPF_RET ||| BPF_A

def operations : List Operation :=
  [.load, .arithmetic .add, .arithmetic .sub, .arithmetic .mul, .arithmetic .div, .arithmetic .or, .arithmetic .and,
    .arithmetic .lsh, .arithmetic .rsh, .arithmetic .mod, .arithmetic .xor, .neg, .jumpAlways, .jump .jeq, .jump .jgt,
    .jump .jge, .jump .jset, .retK, .retA]

/-- The operation of a code, if it is one of the machine's. -/
def decode (code : BitVec 16) : Option Operation :=
  operations.find? fun operation => operation.code = code

/-- Sums and products wrap; a divisor is not zero and a shift is by less than 32. -/
def Arithmetic.apply (accumulator k : BitVec 32) : Arithmetic → Option (BitVec 32)
  | add => some (accumulator + k)
  | sub => some (accumulator - k)
  | mul => some (accumulator * k)
  | div => if k = 0 then none else some (accumulator / k)
  | or => some (accumulator ||| k)
  | and => some (accumulator &&& k)
  | lsh => if k.toNat < 32 then some (accumulator <<< k.toNat) else none
  | rsh => if k.toNat < 32 then some (accumulator >>> k.toNat) else none
  | mod => if k = 0 then none else some (accumulator % k)
  | xor => some (accumulator ^^^ k)

def Comparison.holds (accumulator k : BitVec 32) : Comparison → Bool
  | jeq => accumulator = k
  | jgt => accumulator > k
  | jge => accumulator ≥ k
  | jset => accumulator &&& k ≠ 0

/-- One instruction: it ends the filter, with a verdict if the machine has the operation, or it steps over
some of the instructions after it. -/
def exec (data : ArchSeccompData) (insn : SockFilter) (accumulator : BitVec 32) :
    Flow (BitVec 32) (Option (BitVec 32)) :=
  match decode insn.code with
  | none => .halt none
  | some .load =>
    if inside : insn.k.toNat < archSeccompDataSize ∧ insn.k.toNat % 4 = 0 then
      .skip 0 (data.word ⟨insn.k.toNat / 4, Nat.div_lt_of_lt_mul (show insn.k.toNat < 4 * 16 from inside.1)⟩)
    else .halt none
  | some (.arithmetic op) =>
    match op.apply accumulator insn.k with
    | some value => .skip 0 value
    | none => .halt none
  | some .neg => .skip 0 (-accumulator)
  | some .jumpAlways => .skip insn.k.toNat accumulator
  | some (.jump test) => .skip (if test.holds accumulator insn.k then insn.jt.toNat else insn.jf.toNat) accumulator
  | some .retK => .halt (some insn.k)
  | some .retA => .halt (some accumulator)

/-- The verdict of the machine. It has none when it meets an operation that is not its own or leaves the program. -/
def verdict (program : Program) (data : ArchSeccompData) : Option (BitVec 32) :=
  (run (exec data) program 0).join

theorem code_of_decode {code : BitVec 16} {operation : Operation} (decoded : decode code = some operation) :
    code = operation.code := by
  rw [decode] at decoded
  have found := List.find?_some decoded
  exact (of_decide_eq_true found).symm

theorem decode_code (operation : Operation) : decode operation.code = some operation := by
  cases operation with
  | load | neg | jumpAlways | retK | retA => rfl
  | arithmetic op =>
    cases op with
    | add | sub | mul | div | or | and | lsh | rsh | mod | xor => rfl
  | jump test =>
    cases test with
    | jeq | jgt | jge | jset => rfl

end Libchrome.Bpf.Classic

/-!
# The interpreter against the classic machine

The interpreter tells instructions by some bits of their codes only, and shifts by 32. Where it executes an
instruction that the classic machine has not, or has with another meaning, its result is not the machine's.
-/

namespace Libchrome.Bpf.Verifier
open Library.ForwardCode

variable {program : Program} {data : ArchSeccompData} {state after : State} {insn : SockFilter}

/-- An instruction that the classic machine does not have, or that returns the accumulator. -/
def Misread (insn : SockFilter) (accumulator : BitVec 32) : Prop :=
  match Classic.decode insn.code with
  | none => True
  | some (.arithmetic .lsh) | some (.arithmetic .rsh) => insn.k = 32
  | some .retA => accumulator ≠ insn.k
  | some _ => False

theorem class_code (operation : Classic.Operation) :
    BPF_CLASS operation.code =
      match operation with
      | .load => BPF_LD
      | .arithmetic _ | .neg => BPF_ALU
      | .jumpAlways | .jump _ => BPF_JMP
      | .retK | .retA => BPF_RET := by
  cases operation with
  | load | neg | jumpAlways | retK | retA => rfl
  | arithmetic op =>
    cases op with
    | add | sub | mul | div | or | and | lsh | rsh | mod | xor => rfl
  | jump test =>
    cases test with
    | jeq | jgt | jge | jset => rfl

variable {operation : Classic.Operation}

theorem load_of_class (load : BPF_CLASS operation.code = BPF_LD) : operation = .load := by
  rw [class_code] at load
  cases operation with
  | load => rfl
  | arithmetic | neg | jumpAlways | jump | retK | retA => simp at load

theorem arithmetic_of_class (arithmetic : BPF_CLASS operation.code = BPF_ALU) :
    operation = .neg ∨ ∃ op, operation = .arithmetic op := by
  rw [class_code] at arithmetic
  cases operation with
  | neg => exact .inl rfl
  | arithmetic op => exact .inr ⟨op, rfl⟩
  | load | jumpAlways | jump | retK | retA => simp at arithmetic

theorem jump_of_class (jump : BPF_CLASS operation.code = BPF_JMP) :
    operation = .jumpAlways ∨ ∃ test, operation = .jump test := by
  rw [class_code] at jump
  cases operation with
  | jumpAlways => exact .inl rfl
  | jump test => exact .inr ⟨test, rfl⟩
  | load | arithmetic | neg | retK | retA => simp at jump

theorem ret_of_class (ret : BPF_CLASS operation.code = BPF_RET) : operation = .retK ∨ operation = .retA := by
  rw [class_code] at ret
  cases operation with
  | retK => exact .inl rfl
  | retA => exact .inr rfl
  | load | arithmetic | neg | jumpAlways | jump => simp at ret

variable {k : BitVec 32}

theorem toNat_lt_32 (atMost : ¬ k > 32) (other : k ≠ 32) : k.toNat < 32 := by
  have le : k.toNat ≤ 32 := Nat.not_lt.mp atMost
  have ne : k.toNat ≠ 32 := fun same => other (BitVec.eq_of_toNat_eq same)
  omega

variable {next : Registers}

theorem set_apply (registers : Registers) {value : BitVec 32}
    (computed : (.ok { registers with accumulator := value } : Except String Registers) = .ok next) :
    some value = some next.accumulator := by
  cases computed
  rfl

theorem divide_apply (registers : Registers) {value : BitVec 32}
    (computed : (if k = 0 then Except.error "Illegal division by zero" else .ok { registers with accumulator := value }) = .ok next) :
    (if k = 0 then none else some value) = some next.accumulator := by
  split at computed
  next => cases computed
  next nonzero =>
    cases computed
    exact if_neg nonzero

theorem shift_apply (registers : Registers) (other : k ≠ 32) (shift : Nat → BitVec 32)
    (computed : (if k > 32 then Except.error "Illegal shift operation"
      else .ok { registers with accumulator := shift (k.toNat % 32) }) = .ok next) :
    (if k.toNat < 32 then some (shift k.toNat) else none) = some next.accumulator := by
  split at computed
  next => cases computed
  next atMost =>
    have below := toNat_lt_32 atMost other
    cases computed
    rw [if_pos below, Nat.mod_eq_of_lt below]

theorem alu_code (op : Classic.Arithmetic) (registers : Registers) (jt jf : BitVec 8) (k : BitVec 32) :
    alu registers ⟨(Classic.Operation.arithmetic op).code, jt, jf, k⟩ =
      match op with
      | .div => if k = 0 then .error "Illegal division by zero"
        else .ok { registers with accumulator := registers.accumulator / k }
      | .mod => if k = 0 then .error "Illegal division by zero"
        else .ok { registers with accumulator := registers.accumulator % k }
      | .lsh => if k > 32 then .error "Illegal shift operation"
        else .ok { registers with accumulator := registers.accumulator <<< (k.toNat % 32) }
      | .rsh => if k > 32 then .error "Illegal shift operation"
        else .ok { registers with accumulator := registers.accumulator >>> (k.toNat % 32) }
      | .add => .ok { registers with accumulator := registers.accumulator + k }
      | .sub => .ok { registers with accumulator := registers.accumulator - k }
      | .mul => .ok { registers with accumulator := registers.accumulator * k }
      | .or => .ok { registers with accumulator := registers.accumulator ||| k }
      | .and => .ok { registers with accumulator := registers.accumulator &&& k }
      | .xor => .ok { registers with accumulator := registers.accumulator ^^^ k } := by
  cases op with
  | add | sub | mul | div | or | and | lsh | rsh | mod | xor =>
    simp [alu, Classic.Operation.code, Classic.Arithmetic.op, BPF_OP, BPF_SRC]

variable {registers : Registers} {jt jf : BitVec 8}

theorem alu_arithmetic {op : Classic.Arithmetic}
    (read : ¬ Misread ⟨(Classic.Operation.arithmetic op).code, jt, jf, k⟩ registers.accumulator)
    (computed : alu registers ⟨(Classic.Operation.arithmetic op).code, jt, jf, k⟩ = .ok next) :
    op.apply registers.accumulator k = some next.accumulator := by
  rw [alu_code] at computed
  rw [Misread, Classic.decode_code] at read
  cases op with
  | add | sub | mul | or | and | xor => exact set_apply registers computed
  | div | mod => exact divide_apply registers computed
  | lsh => exact shift_apply registers read (registers.accumulator <<< ·) computed
  | rsh => exact shift_apply registers read (registers.accumulator >>> ·) computed

theorem alu_neg (computed : alu registers ⟨Classic.Operation.neg.code, jt, jf, k⟩ = .ok next) :
    next = { registers with accumulator := -registers.accumulator } := by
  have negates : BPF_OP Classic.Operation.neg.code = BPF_NEG := by decide
  rw [alu, if_pos negates] at computed
  exact (Except.ok.inj computed).symm

variable {accumulator : BitVec 32}

theorem ld_load (loaded : ld data ⟨Classic.Operation.load.code, jt, jf, k⟩ = .ok registers) :
    Classic.exec data ⟨Classic.Operation.load.code, jt, jf, k⟩ accumulator = .skip 0 registers.accumulator := by
  have reads := ld_inside loaded
  unfold ld at loaded
  split at loaded
  next => cases loaded
  next =>
    split at loaded
    next aligned =>
      cases loaded
      have multiple : k.toNat % 4 = 0 := and_three_eq_zero_iff.mp aligned.2
      exact dif_pos ⟨aligned.1, multiple⟩
    next => cases loaded

theorem op_jumpAlways : BPF_OP Classic.Operation.jumpAlways.code = BPF_JA := by
  decide

theorem op_jump_ne (test : Classic.Comparison) : BPF_OP (Classic.Operation.jump test).code ≠ BPF_JA := by
  cases test with
  | jeq | jgt | jge | jset => decide

theorem jmp_jumpAlways_code {jumped : State}
    (taken : jmp program state ⟨Classic.Operation.jumpAlways.code, jt, jf, k⟩ = .ok jumped) :
    jumped = { state with ip := state.ip + k } := by
  rw [jmp, if_pos op_jumpAlways] at taken
  split at taken
  next => cases taken
  next => exact (Except.ok.inj taken).symm

theorem jmp_jump {jumped : State} {test : Classic.Comparison}
    (taken : jmp program state ⟨(Classic.Operation.jump test).code, jt, jf, k⟩ = .ok jumped) :
    jumped = { state with
      ip := state.ip + (if test.holds state.registers.accumulator k then jt else jf).setWidth 32 } := by
  have compared : jmpTest state.registers.accumulator ⟨(Classic.Operation.jump test).code, jt, jf, k⟩ =
      some (test.holds state.registers.accumulator k) := by
    cases test with
    | jeq | jgt | jge | jset =>
      simp [jmpTest, Classic.Operation.code, Classic.Comparison.op, Classic.Comparison.holds, BPF_OP]
  rw [jmp, if_neg (op_jump_ne test)] at taken
  split at taken
  next => cases taken
  next =>
    rw [compared] at taken
    cases holds : test.holds state.registers.accumulator k with
    | true =>
      rw [holds] at taken
      exact (Except.ok.inj taken).symm
    | false =>
      rw [holds] at taken
      exact (Except.ok.inj taken).symm

theorem toNat_extend (offset : BitVec 8) : (offset.setWidth 32).toNat = offset.toNat := by
  rw [BitVec.toNat_setWidth, Nat.mod_eq_of_lt (Nat.lt_trans offset.isLt (by decide))]

theorem toNat_move {ip offset : BitVec 32} {length : Nat} (small : length < 2 ^ 30) (inside : ip.toNat < length)
    (forward : ip.toNat < (ip + offset + 1).toNat) (below : (ip + offset + 1).toNat ≤ length) :
    (ip + offset + 1).toNat = ip.toNat + 1 + offset.toNat := by
  have bound := offset.isLt
  simp only [BitVec.toNat_add, show (1 : BitVec 32).toNat = 1 from rfl] at *
  omega

/-- What the interpreter does with an instruction that it does not misread is what the machine does. -/
theorem exec_of_moved (small : program.length < 2 ^ 30) (inside : state.ip.toNat < program.length)
    (read : ¬ Misread insn state.registers.accumulator) (moved : Moved program data state insn after) :
    ∃ count, Classic.exec data insn state.registers.accumulator = .skip count after.registers.accumulator ∧
      after.ip.toNat = state.ip.toNat + 1 + count := by
  have next : (state.ip + 1).toNat = state.ip.toNat + 1 + 0 := by
    simp only [BitVec.toNat_add, show (1 : BitVec 32).toNat = 1 from rfl]
    omega
  cases decoded : Classic.decode insn.code with
  | none =>
    rw [Misread, decoded] at read
    exact absurd trivial read
  | some operation =>
    obtain ⟨code, jt, jf, k⟩ := insn
    obtain rfl := Classic.code_of_decode decoded
    cases moved with
    | ld load loaded =>
      obtain rfl := load_of_class load
      exact ⟨0, ld_load loaded, next⟩
    | alu arithmetic computed =>
      rcases arithmetic_of_class arithmetic with rfl | ⟨op, rfl⟩
      · obtain rfl := alu_neg computed
        exact ⟨0, rfl, next⟩
      · refine ⟨0, ?_, next⟩
        simp only [Classic.exec, decoded, alu_arithmetic read computed]
    | jmp jump taken =>
      obtain ⟨forward, below⟩ := jmp_forward small inside taken
      rcases jump_of_class jump with rfl | ⟨test, rfl⟩
      · obtain rfl := jmp_jumpAlways_code taken
        exact ⟨k.toNat, rfl, toNat_move small inside forward (Nat.le_of_lt below)⟩
      · obtain rfl := jmp_jump taken
        refine ⟨_, ?_, toNat_move small inside forward (Nat.le_of_lt below)⟩
        simp only [Classic.exec, decoded]
        cases test.holds state.registers.accumulator k with
        | true => rw [if_pos rfl, if_pos rfl, toNat_extend]
        | false => rw [if_neg Bool.false_ne_true, if_neg Bool.false_ne_true, toNat_extend]

theorem Moved.class_ne_ret (moved : Moved program data state insn after) : BPF_CLASS insn.code ≠ BPF_RET := by
  intro ret
  cases moved with
  | ld load =>
    rw [ret] at load
    simp at load
  | jmp jump =>
    rw [ret] at jump
    simp at jump
  | alu arithmetic =>
    rw [ret] at arithmetic
    simp at arithmetic

variable {result : BitVec 32}

theorem step_done_ok (ended : step program data state = .done (.ok result)) :
    ∃ insn, program[state.ip.toNat]? = some insn ∧ BPF_CLASS insn.code = BPF_RET ∧ insn.k = result := by
  unfold step at ended
  cases fetched : program[state.ip.toNat]? with
  | none =>
    rw [fetched] at ended
    cases ended
  | some insn =>
    rw [fetched] at ended
    refine ⟨insn, rfl, ?_⟩
    simp only at ended
    split at ended
    next =>
      split at ended
      next => cases ended
      next => cases ended
    next =>
      split at ended
      next =>
        split at ended
        next => cases ended
        next => cases ended
      next =>
        split at ended
        next ret =>
          have returned := Step.done.inj ended
          refine ⟨ret, ?_⟩
          unfold Verifier.ret at returned
          split at returned
          next => cases returned
          next =>
            split at returned
            next => exact Except.ok.inj returned
            next => cases returned
        next =>
          split at ended
          next =>
            split at ended
            next => cases ended
            next => cases ended
          next => cases ended

theorem exec_of_ret (ret : BPF_CLASS insn.code = BPF_RET) (returned : insn.k = result)
    (read : ¬ Misread insn accumulator) : Classic.exec data insn accumulator = .halt (some result) := by
  cases decoded : Classic.decode insn.code with
  | none =>
    rw [Misread, decoded] at read
    exact absurd trivial read
  | some operation =>
    rw [Misread, decoded] at read
    rw [Classic.code_of_decode decoded] at ret
    rcases ret_of_class ret with rfl | rfl
    · simp only [Classic.exec, decoded, returned]
    · simp only [Classic.exec, decoded, not_not.mp read, returned]

variable (data) in
theorem exec_of_misread (misread : Misread insn accumulator) :
    Classic.exec data insn accumulator = .halt none ∨
      BPF_CLASS insn.code = BPF_RET ∧ accumulator ≠ insn.k ∧
        Classic.exec data insn accumulator = .halt (some accumulator) := by
  unfold Misread at misread
  split at misread
  next decoded => exact .inl (by simp only [Classic.exec, decoded])
  next decoded =>
    left
    simp only [Classic.exec, decoded, misread]
    rfl
  next decoded =>
    left
    simp only [Classic.exec, decoded, misread]
    rfl
  next decoded =>
    refine .inr ⟨?_, misread, by simp only [Classic.exec, decoded]⟩
    rw [Classic.code_of_decode decoded]
    decide
  next => exact absurd misread id

/-! ### Runs -/

variable {count : Nat}

theorem Iterated.unique {other : State} (iterated : Iterated program data count state)
    (again : Iterated program data count other) : state = other := by
  induction iterated generalizing other with
  | start =>
    cases again
    rfl
  | next _ moved ih =>
    cases again with
    | next before movedAgain =>
      obtain rfl := ih before
      exact Step.next.inj (moved.symm.trans movedAgain)

/-- Before a state that was reached, every iteration went on. -/
theorem Iterated.moved {count later : Nat} (reached : Iterated program data later after) (before : count < later)
    (iterated : Iterated program data count state) : ∃ next, step program data state = .next next := by
  induction reached with
  | start => exact absurd before (Nat.not_lt_zero _)
  | next previous moved ih =>
    rcases Nat.lt_or_eq_of_le (Nat.le_of_lt_succ before) with earlier | rfl
    · exact ih earlier
    · obtain rfl := iterated.unique previous
      exact ⟨_, moved⟩

theorem Iterated.end_unique {later : Nat} {outcome other : Except String (BitVec 32)}
    (iterated : Iterated program data count state) (ended : step program data state = .done outcome)
    (reached : Iterated program data later after) (endedAgain : step program data after = .done other) :
    count = later ∧ outcome = other := by
  rcases Nat.lt_trichotomy count later with before | same | afterwards
  · obtain ⟨next, moved⟩ := reached.moved before iterated
    rw [ended] at moved
    cases moved
  · subst same
    obtain rfl := iterated.unique reached
    exact ⟨rfl, Step.done.inj (ended.symm.trans endedAgain)⟩
  · obtain ⟨next, moved⟩ := iterated.moved afterwards reached
    rw [endedAgain] at moved
    cases moved

theorem loop_done {fuel : Nat} {outcome : Except String (BitVec 32)} (iterated : Iterated program data count state)
    (ended : loop program data fuel state = some outcome) :
    ∃ last final, Iterated program data last final ∧ step program data final = .done outcome := by
  induction fuel generalizing count state with
  | zero => cases ended
  | succ fuel ih =>
    rw [loop] at ended
    split at ended
    next result done =>
      obtain rfl := Option.some.inj ended
      exact ⟨count, state, iterated, done⟩
    next after moved => exact ih (iterated.next moved) ended

theorem run_of_iterated (small : program.length < 2 ^ 30) (iterated : Iterated program data count state)
    (read : ∀ earlier before insn, earlier < count → Iterated program data earlier before →
      program[before.ip.toNat]? = some insn → ¬ Misread insn before.registers.accumulator) :
    run (Classic.exec data) program 0 =
      run (Classic.exec data) (program.drop state.ip.toNat) state.registers.accumulator := by
  induction iterated with
  | start => rfl
  | @next count before after iterated moved ih =>
    rw [ih fun earlier state insn below => read earlier state insn (Nat.lt_succ_of_lt below)]
    obtain ⟨insn, fetched, step⟩ := step_next moved
    obtain ⟨inside, fetch⟩ := List.getElem?_eq_some_iff.mp fetched
    obtain ⟨skipped, same, place⟩ := exec_of_moved small inside
      (read count before insn (Nat.lt_succ_self _) iterated fetched) step
    rw [List.drop_eq_getElem_cons inside, run_cons, fetch, same, place]
    simp only [List.drop_drop]

/-- The state of a run at the instruction that it is about to execute. -/
structure Executes (program : Program) (data : ArchSeccompData) (count : Nat) (state : State) (insn : SockFilter) :
    Prop where
  iterated : Iterated program data count state
  fetched : program[state.ip.toNat]? = some insn

/-- The run executes a misread instruction, and no error stops it there or later. -/
def Strays (program : Program) (data : ArchSeccompData) : Prop :=
  (1 ≤ program.length ∧ program.length < SECCOMP_MAX_PROGRAM_SIZE) ∧
    ∃ count state insn, Executes program data count state insn ∧ Misread insn state.registers.accumulator ∧
      ∀ later after message, count ≤ later → Iterated program data later after →
        step program data after ≠ .done (.error message)

/-- A verdict of the interpreter is the machine's, and where the machine has none there is an error. -/
def Faithful (program : Program) (data : ArchSeccompData) : Prop :=
  (∀ result, evaluateBPF program data = some (.ok result) → Classic.verdict program data = some result) ∧
    (Classic.verdict program data = none → ∃ message, evaluateBPF program data = some (.error message))

theorem first_misread (executes : Executes program data count state insn)
    (misread : Misread insn state.registers.accumulator) :
    ∃ first before early, first ≤ count ∧ Executes program data first before early ∧
      Misread early before.registers.accumulator ∧
      ∀ earlier previous other, earlier < first → Iterated program data earlier previous →
        program[previous.ip.toNat]? = some other → ¬ Misread other previous.registers.accumulator := by
  induction count using Nat.strong_induction_on generalizing state insn with
  | h count ih =>
    by_cases some_ : ∃ earlier previous other, earlier < count ∧ Executes program data earlier previous other ∧
        Misread other previous.registers.accumulator
    · obtain ⟨earlier, previous, other, below, executed, misreadBefore⟩ := some_
      obtain ⟨first, before, early, atMost, rest⟩ := ih earlier below executed misreadBefore
      exact ⟨first, before, early, by omega, rest⟩
    · refine ⟨count, state, insn, Nat.le_refl _, executes, misread, ?_⟩
      intro earlier previous other below iterated fetched misreadBefore
      exact some_ ⟨earlier, previous, other, below, ⟨iterated, fetched⟩, misreadBefore⟩

theorem evaluateBPF_eq_loop (sized : 1 ≤ program.length ∧ program.length < SECCOMP_MAX_PROGRAM_SIZE) :
    evaluateBPF program data = loop program data (program.length + 1) start := by
  rw [evaluateBPF, if_neg (not_or.mpr ⟨Nat.not_lt.mpr sized.1, Nat.not_le.mpr sized.2⟩)]
  rfl

theorem sized_of_ok (evaluated : evaluateBPF program data = some (.ok result)) :
    1 ≤ program.length ∧ program.length < SECCOMP_MAX_PROGRAM_SIZE := by
  unfold evaluateBPF at evaluated
  split at evaluated
  next => cases evaluated
  next sized => exact ⟨Nat.not_lt.mp (not_or.mp sized).1, Nat.not_le.mp (not_or.mp sized).2⟩

theorem verdict_of_evaluateBPF (evaluated : evaluateBPF program data = some (.ok result))
    (straight : ¬ Strays program data) : Classic.verdict program data = some result := by
  have sized := sized_of_ok evaluated
  rw [evaluateBPF_eq_loop sized] at evaluated
  obtain ⟨last, final, iterated, ended⟩ := loop_done .start evaluated
  obtain ⟨insn, fetched, ret, returned⟩ := step_done_ok ended
  have read : ∀ earlier before insn, Iterated program data earlier before →
      program[before.ip.toNat]? = some insn → ¬ Misread insn before.registers.accumulator := by
    intro earlier before insn reached fetched misread
    refine straight ⟨sized, earlier, before, insn, ⟨reached, fetched⟩, misread, ?_⟩
    intro later after message _ again failed
    cases (iterated.end_unique ended again failed).2
  have same := run_of_iterated sized.2 iterated fun earlier before insn _ => read earlier before insn
  obtain ⟨inside, fetch⟩ := List.getElem?_eq_some_iff.mp fetched
  rw [Classic.verdict, same, List.drop_eq_getElem_cons inside, run_cons, fetch,
    exec_of_ret ret returned (read last final insn iterated fetched)]
  rfl

theorem not_faithful_of_strays (strays : Strays program data) : ¬ Faithful program data := by
  obtain ⟨sized, count, state, insn, executes, misread, noError⟩ := strays
  intro faithful
  obtain ⟨⟨outcome, evaluated, looped⟩, -⟩ := evaluateBPF_terminates program data sized.1 sized.2
  obtain ⟨last, final, iterated, ended⟩ := loop_done .start looped
  have late : count ≤ last := by
    by_contra before
    obtain ⟨next, moved⟩ := executes.iterated.moved (Nat.not_le.mp before) iterated
    rw [ended] at moved
    cases moved
  cases outcome with
  | error message => exact noError last final message late iterated ended
  | ok result =>
    have verdict := faithful.1 result evaluated
    obtain ⟨first, before, early, atMost, executed, misreadFirst, read⟩ := first_misread executes misread
    have same := run_of_iterated sized.2 executed.iterated read
    obtain ⟨inside, fetch⟩ := List.getElem?_eq_some_iff.mp executed.fetched
    rw [Classic.verdict, same, List.drop_eq_getElem_cons inside, run_cons, fetch] at verdict
    rcases exec_of_misread data misreadFirst with nothing | ⟨ret, different, returned⟩
    · rw [nothing] at verdict
      cases verdict
    · rw [returned] at verdict
      obtain rfl := Option.some.inj verdict
      have stops : ∃ outcome, step program data before = .done outcome := by
        cases moved : step program data before with
        | done outcome => exact ⟨outcome, rfl⟩
        | next after =>
          obtain ⟨insn, fetched, step⟩ := step_next moved
          obtain rfl := Option.some.inj (executed.fetched.symm.trans fetched)
          exact absurd ret step.class_ne_ret
      obtain ⟨outcome, stopped⟩ := stops
      obtain ⟨rfl, rfl⟩ := executed.iterated.end_unique stopped iterated ended
      obtain ⟨insn, fetched, -, operand⟩ := step_done_ok stopped
      obtain rfl := Option.some.inj (executed.fetched.symm.trans fetched)
      exact different operand.symm

/-- The interpreter is faithful to the classic machine on just the runs that do not stray. -/
theorem faithful_iff_not_strays (program : Program) (data : ArchSeccompData) :
    Faithful program data ↔ ¬ Strays program data := by
  refine ⟨fun faithful strays => not_faithful_of_strays strays faithful, fun straight => ⟨?_, ?_⟩⟩
  · intro result evaluated
    exact verdict_of_evaluateBPF evaluated straight
  · intro nothing
    by_cases sized : 1 ≤ program.length ∧ program.length < SECCOMP_MAX_PROGRAM_SIZE
    · obtain ⟨⟨outcome, evaluated, -⟩, -⟩ := evaluateBPF_terminates program data sized.1 sized.2
      cases outcome with
      | error message => exact ⟨message, evaluated⟩
      | ok result =>
        rw [verdict_of_evaluateBPF evaluated straight] at nothing
        cases nothing
    · refine ⟨"Invalid program length", ?_⟩
      rw [evaluateBPF, if_pos]
      omega

/-- The system call number, returned from the accumulator. -/
def returnsAccumulator : Program := [⟨0x20, 0, 0, 0⟩, ⟨0x16, 0, 0, SECCOMP_RET_ALLOW⟩]

theorem not_faithful_returnsAccumulator :
    ¬ ∀ (program : Program) (data : ArchSeccompData), Faithful program data := by
  intro faithful
  have verdict := (faithful returnsAccumulator anyCall).1 SECCOMP_RET_ALLOW rfl
  exact absurd verdict (by decide)

end Libchrome.Bpf.Verifier
