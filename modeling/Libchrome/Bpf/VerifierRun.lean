import Libchrome.Bpf.Verifier

/-! The interpreter as an instance of forward code. On a program whose jumps all
stay inside, the loop over `ip` and the run over program tails agree. -/

namespace Libchrome.Bpf
open Library.ForwardCode

abbrev Outcome := Except String (BitVec 32)

/-- What an instruction other than `BPF_JA` does, before jump offsets are looked at. -/
inductive Transfer where
  | halt (result : Outcome)
  | next (registers : Registers)
  | branch (taken : Bool) (registers : Registers)

def transfer (data : ArchSeccompData) (insn : SockFilter) (registers : Registers) : Transfer :=
  if BPF_CLASS insn.code = BPF_LD then
    match Verifier.ld data insn with
    | .error message => .halt (.error message)
    | .ok registers => .next registers
  else if BPF_CLASS insn.code = BPF_JMP then
    if BPF_SRC insn.code ≠ BPF_K ∨ registers.acc_is_valid = false then
      .halt (.error "Invalid BPF_JMP instruction")
    else
      match Verifier.jmpTest registers.accumulator insn with
      | some taken => .branch taken registers
      | none => .halt (.error "Invalid BPF_JMP instruction")
  else if BPF_CLASS insn.code = BPF_RET then .halt (Verifier.ret insn)
  else if BPF_CLASS insn.code = BPF_ALU then
    match Verifier.alu registers insn with
    | .error message => .halt (.error message)
    | .ok registers => .next registers
  else .halt (.error "Unexpected instruction in BPF program")

def SockFilter.isJumpAlways (insn : SockFilter) : Prop :=
  BPF_CLASS insn.code = BPF_JMP ∧ BPF_OP insn.code = BPF_JA

instance (insn : SockFilter) : Decidable insn.isJumpAlways := inferInstanceAs (Decidable (_ ∧ _))

def exec (data : ArchSeccompData) (insn : SockFilter) (registers : Registers) : Flow Registers Outcome :=
  if insn.isJumpAlways then .skip insn.k.toNat registers
  else
    match transfer data insn registers with
    | .halt result => .halt result
    | .next registers => .skip 0 registers
    | .branch true registers => .skip insn.jt.toNat registers
    | .branch false registers => .skip insn.jf.toNat registers

theorem transfer_ld (data : ArchSeccompData) {insn : SockFilter} (registers : Registers)
    (load : BPF_CLASS insn.code = BPF_LD) :
    transfer data insn registers =
      match Verifier.ld data insn with
      | .error message => .halt (.error message)
      | .ok registers => .next registers := by
  rw [transfer, if_pos load]

theorem transfer_jmp (data : ArchSeccompData) {insn : SockFilter} (registers : Registers)
    (jump : BPF_CLASS insn.code = BPF_JMP) (source : BPF_SRC insn.code = BPF_K)
    (valid : registers.acc_is_valid = true) :
    transfer data insn registers =
      match Verifier.jmpTest registers.accumulator insn with
      | some taken => .branch taken registers
      | none => .halt (.error "Invalid BPF_JMP instruction") := by
  have load : BPF_CLASS insn.code ≠ BPF_LD := by rw [jump]; decide
  have straight : ¬(BPF_SRC insn.code ≠ BPF_K ∨ registers.acc_is_valid = false) := by
    simp only [source, valid, ne_eq, not_true_eq_false, Bool.true_eq_false, or_self, not_false_eq_true]
  rw [transfer, if_neg load, if_pos jump, if_neg straight]

theorem transfer_ret (data : ArchSeccompData) {insn : SockFilter} (registers : Registers)
    (ret : BPF_CLASS insn.code = BPF_RET) : transfer data insn registers = .halt (Verifier.ret insn) := by
  have load : BPF_CLASS insn.code ≠ BPF_LD := by rw [ret]; decide
  have jump : BPF_CLASS insn.code ≠ BPF_JMP := by rw [ret]; decide
  rw [transfer, if_neg load, if_neg jump, if_pos ret]

theorem transfer_alu (data : ArchSeccompData) {insn : SockFilter} (registers : Registers)
    (arithmetic : BPF_CLASS insn.code = BPF_ALU) :
    transfer data insn registers =
      match Verifier.alu registers insn with
      | .error message => .halt (.error message)
      | .ok registers => .next registers := by
  have load : BPF_CLASS insn.code ≠ BPF_LD := by rw [arithmetic]; decide
  have jump : BPF_CLASS insn.code ≠ BPF_JMP := by rw [arithmetic]; decide
  have ret : BPF_CLASS insn.code ≠ BPF_RET := by rw [arithmetic]; decide
  rw [transfer, if_neg load, if_neg jump, if_neg ret, if_pos arithmetic]

variable {registers next : Registers}

theorem transfer_next {data : ArchSeccompData} {insn : SockFilter} (moved : transfer data insn registers = .next next) :
    BPF_CLASS insn.code ≠ BPF_JMP ∧ BPF_CLASS insn.code ≠ BPF_RET := by
  constructor <;> intro same <;> simp only [transfer, same] at moved
  · rw [if_neg (by decide), if_pos trivial] at moved
    split at moved <;> try split at moved
    all_goals exact Transfer.noConfusion moved
  · rw [if_neg (by decide), if_neg (by decide), if_pos trivial] at moved
    exact Transfer.noConfusion moved

theorem transfer_branch {data : ArchSeccompData} {insn : SockFilter} {taken : Bool}
    (moved : transfer data insn registers = .branch taken next) : BPF_CLASS insn.code = BPF_JMP := by
  by_contra other
  simp only [transfer, if_neg other] at moved
  split at moved
  · split at moved <;> exact Transfer.noConfusion moved
  · split at moved
    · exact Transfer.noConfusion moved
    · split at moved
      · split at moved <;> exact Transfer.noConfusion moved
      · exact Transfer.noConfusion moved

/-- Every place `insn` can continue at is among the `room` instructions that follow it. -/
def Lands (insn : SockFilter) (room : Nat) : Prop :=
  if insn.isJumpAlways then insn.k.toNat < room
  else if BPF_CLASS insn.code = BPF_JMP then insn.jt.toNat < room ∧ insn.jf.toNat < room
  else BPF_CLASS insn.code = BPF_RET ∨ 0 < room

/-- A program that execution cannot leave otherwise than by a result. -/
structure Closed (program : Program) : Prop where
  lands : ∀ ip (inside : ip < program.length), Lands program[ip] (program.length - 1 - ip)

/-- An interpreter state at position `position` of a program. -/
abbrev stateAt (position : Nat) (registers : Registers) : State := ⟨BitVec.ofNat 32 position, registers⟩

variable {position : Nat}

private theorem ip_toNat (small : position < 2 ^ 30) : (BitVec.ofNat 32 position).toNat = position := by
  rw [BitVec.toNat_ofNat, Nat.mod_eq_of_lt (by omega)]

private theorem ip_add {position : Nat} (offset : BitVec 32) :
    BitVec.ofNat 32 position + offset + 1 = BitVec.ofNat 32 (position + 1 + offset.toNat) := by
  apply BitVec.eq_of_toNat_eq
  simp only [BitVec.toNat_add, BitVec.toNat_ofNat, show (1 : BitVec 32).toNat = 1 from rfl]
  omega

/-- A jump that lands inside the program passes the interpreter's range check. -/
private theorem ip_add_inside {program : Program} (offset : BitVec 32) (small : program.length < 2 ^ 30)
    (lands : offset.toNat < program.length - 1 - position) :
    (BitVec.ofNat 32 position + offset + 1).toNat < program.length := by
  rw [ip_add, ip_toNat (by omega)]
  omega

private theorem ip_add_forward {program : Program} (offset : BitVec 32) (small : program.length < 2 ^ 30)
    (lands : offset.toNat < program.length - 1 - position) :
    ¬BitVec.ofNat 32 position + offset + 1 ≤ BitVec.ofNat 32 position := by
  rw [BitVec.le_def, ip_add, ip_toNat (by omega), ip_toNat (by omega)]
  omega

private theorem toNat_extend (offset : BitVec 8) : (offset.setWidth 32).toNat = offset.toNat := by
  rw [BitVec.toNat_setWidth, Nat.mod_eq_of_lt (by omega)]

theorem jmp_jumpAlways {program : Program} {insn : SockFilter} (small : program.length < 2 ^ 30)
    (always : insn.isJumpAlways) (lands : insn.k.toNat < program.length - 1 - position) :
    Verifier.jmp program (stateAt position registers) insn =
      .ok ⟨BitVec.ofNat 32 position + insn.k, registers⟩ := by
  have inside := ip_add_inside insn.k small lands
  have forward := ip_add_forward insn.k small lands
  simp only [Verifier.jmp]
  rw [if_pos always.2, if_neg (not_or.2 ⟨Nat.not_le.2 inside, forward⟩)]

theorem jmp_branch {program : Program} {insn : SockFilter} (small : program.length < 2 ^ 30)
    (branch : BPF_OP insn.code ≠ BPF_JA)
    (lands : insn.jt.toNat < program.length - 1 - position ∧ insn.jf.toNat < program.length - 1 - position) :
    Verifier.jmp program (stateAt position registers) insn =
      if BPF_SRC insn.code ≠ BPF_K ∨ registers.acc_is_valid = false then
        .error "Invalid BPF_JMP instruction"
      else
        match Verifier.jmpTest registers.accumulator insn with
        | some true => .ok ⟨BitVec.ofNat 32 position + insn.jt.setWidth 32, registers⟩
        | some false => .ok ⟨BitVec.ofNat 32 position + insn.jf.setWidth 32, registers⟩
        | none => .error "Invalid BPF_JMP instruction" := by
  have jt := ip_add_inside (insn.jt.setWidth 32) small (by rw [toNat_extend]; exact lands.1)
  have jf := ip_add_inside (insn.jf.setWidth 32) small (by rw [toNat_extend]; exact lands.2)
  simp only [Verifier.jmp]
  rw [if_neg branch]
  by_cases bad : BPF_SRC insn.code ≠ BPF_K ∨ registers.acc_is_valid = false
  · rw [if_pos bad, if_pos (bad.imp_right Or.inl)]
  · have good : ¬(BPF_SRC insn.code ≠ BPF_K ∨ registers.acc_is_valid = false ∨
        program.length ≤ (BitVec.ofNat 32 position + insn.jt.setWidth 32 + 1).toNat ∨
        program.length ≤ (BitVec.ofNat 32 position + insn.jf.setWidth 32 + 1).toNat) := by
      rintro (source | invalid | far | far)
      · exact bad (Or.inl source)
      · exact bad (Or.inr invalid)
      · exact Nat.not_le.2 jt far
      · exact Nat.not_le.2 jf far
    rw [if_neg bad]
    exact if_neg good

theorem step_eq_exec {program : Program} (data : ArchSeccompData) (registers : Registers)
    (small : program.length < 2 ^ 30) (inside : position < program.length)
    (lands : Lands program[position] (program.length - 1 - position)) :
    Verifier.step program data (stateAt position registers) =
      match exec data program[position] registers with
      | .halt result => .done result
      | .skip count next => .next (stateAt (position + 1 + count) next) := by
  have fetch : program[(stateAt position registers).ip.toNat]? = some program[position] := by
    rw [stateAt, ip_toNat (by omega), List.getElem?_eq_getElem inside]
  have succ : BitVec.ofNat 32 position + 1 = BitVec.ofNat 32 (position + 1) := by
    simpa using @ip_add position 0
  unfold Verifier.step
  rw [fetch]
  generalize program[position] = insn at lands
  by_cases always : insn.isJumpAlways
  · have jump : BPF_CLASS insn.code ≠ BPF_LD := by rw [always.1]; decide
    rw [Lands, if_pos always] at lands
    simp only [exec, if_pos always, if_neg jump, if_pos always.1]
    rw [jmp_jumpAlways small always lands]
    simp only [ip_add, stateAt]
  · rw [Lands, if_neg always] at lands
    simp only [exec, if_neg always, transfer]
    by_cases load : BPF_CLASS insn.code = BPF_LD
    · simp only [if_pos load]
      cases Verifier.ld data insn with
      | error message => rfl
      | ok next => simp only [stateAt, succ, Nat.add_zero]
    simp only [if_neg load]
    by_cases jump : BPF_CLASS insn.code = BPF_JMP
    · rw [if_pos jump] at lands
      have branch : BPF_OP insn.code ≠ BPF_JA := fun op => always ⟨jump, op⟩
      simp only [if_pos jump]
      rw [jmp_branch small branch lands]
      by_cases bad : BPF_SRC insn.code ≠ BPF_K ∨ registers.acc_is_valid = false
      · simp only [if_pos bad]
      · simp only [if_neg bad]
        cases Verifier.jmpTest registers.accumulator insn with
        | none => rfl
        | some taken => cases taken <;> simp only [ip_add, toNat_extend, stateAt]
    simp only [if_neg jump]
    by_cases ret : BPF_CLASS insn.code = BPF_RET
    · simp only [if_pos ret]
    simp only [if_neg ret]
    by_cases arithmetic : BPF_CLASS insn.code = BPF_ALU
    · simp only [if_pos arithmetic, stateAt]
      cases Verifier.alu registers insn with
      | error message => rfl
      | ok next => simp only [succ, Nat.add_zero]
    · simp only [if_neg arithmetic]

theorem exec_skip_inside {data : ArchSeccompData} {insn : SockFilter} {room count : Nat} (lands : Lands insn room)
    (step : exec data insn registers = .skip count next) : count < room := by
  by_cases always : insn.isJumpAlways
  · rw [Lands, if_pos always] at lands
    rw [exec, if_pos always] at step
    cases step
    exact lands
  rw [Lands, if_neg always] at lands
  rw [exec, if_neg always] at step
  cases moved : transfer data insn registers with
  | halt result => simp only [moved, reduceCtorEq] at step
  | next registers =>
    simp only [moved, Flow.skip.injEq] at step
    have straight := transfer_next moved
    rw [if_neg straight.1] at lands
    have room := lands.resolve_left straight.2
    omega
  | branch taken registers =>
    rw [if_pos (transfer_branch moved)] at lands
    cases taken <;> simp only [moved, Flow.skip.injEq] at step <;> omega

/-- The interpreter's loop on a closed program is a run of forward code. -/
theorem loop_eq_run {program : Program} (data : ArchSeccompData) (closed : Closed program)
    (small : program.length < 2 ^ 30) (fuel position : Nat) (registers : Registers)
    (inside : position < program.length) (enough : program.length ≤ position + fuel) :
    Verifier.loop program data fuel (stateAt position registers) =
      run (exec data) (program.drop position) registers := by
  induction fuel generalizing position registers with
  | zero => omega
  | succ fuel ih =>
    have lands := closed.lands position inside
    rw [Verifier.loop, step_eq_exec data registers small inside lands,
      List.drop_eq_getElem_cons inside, run_cons]
    cases step : exec data program[position] registers with
    | halt result => rfl
    | skip count next =>
      have below := exec_skip_inside lands step
      simp only
      rw [ih (position + 1 + count) next (by omega) (by omega), List.drop_drop]

theorem evaluateBPF_eq_run {program : Program} (data : ArchSeccompData) (closed : Closed program)
    (nonempty : 0 < program.length) (small : program.length < 2 ^ 30) :
    Verifier.evaluateBPF program data = run (exec data) program ⟨0, false⟩ := by
  have length : ¬(program.length < 1 ∨ program.length ≥ SECCOMP_MAX_PROGRAM_SIZE) :=
    not_or.2 ⟨Nat.not_lt.2 nonempty, Nat.not_le.2 small⟩
  rw [Verifier.evaluateBPF, if_neg length]
  exact loop_eq_run data closed small (program.length + 1) 0 ⟨0, false⟩ nonempty (by omega)

end Libchrome.Bpf

/-! Every iteration of the interpreter that sets no error moves `ip` forward, so the loop ends. -/

namespace Libchrome.Bpf.Verifier

variable {program : Program} {data : ArchSeccompData} {state after : State} {insn : SockFilter}

/-- The state in which the loop starts. -/
def start : State := ⟨0, ⟨0, false⟩⟩

/-- The states after a number of iterations that set no error. -/
inductive Iterated (program : Program) (data : ArchSeccompData) : Nat → State → Prop where
  | start : Iterated program data 0 start
  | next {count : Nat} {state after : State} (iterated : Iterated program data count state)
      (moved : step program data state = .next after) : Iterated program data (count + 1) after

/-- What an iteration without error has done: it fetched an instruction and left `ip` just before the next one. -/
inductive Moved (program : Program) (data : ArchSeccompData) (state : State) (insn : SockFilter) : State → Prop where
  | ld {registers : Registers} (load : BPF_CLASS insn.code = BPF_LD) (loaded : ld data insn = .ok registers) :
      Moved program data state insn ⟨state.ip + 1, registers⟩
  | jmp {jumped : State} (jump : BPF_CLASS insn.code = BPF_JMP) (taken : jmp program state insn = .ok jumped) :
      Moved program data state insn { jumped with ip := jumped.ip + 1 }
  | alu {registers : Registers} (arithmetic : BPF_CLASS insn.code = BPF_ALU)
      (computed : alu state.registers insn = .ok registers) :
      Moved program data state insn ⟨state.ip + 1, registers⟩

theorem step_next (moved : step program data state = .next after) :
    ∃ insn, program[state.ip.toNat]? = some insn ∧ Moved program data state insn after := by
  unfold step at moved
  cases fetched : program[state.ip.toNat]? with
  | none =>
    rw [fetched] at moved
    cases moved
  | some insn =>
    rw [fetched] at moved
    refine ⟨insn, rfl, ?_⟩
    simp only at moved
    split at moved
    next load =>
      split at moved
      next => cases moved
      next registers loaded =>
        cases moved
        exact .ld load loaded
    next =>
      split at moved
      next jump =>
        split at moved
        next => cases moved
        next jumped taken =>
          cases moved
          exact .jmp jump taken
      next =>
        split at moved
        next => cases moved
        next =>
          split at moved
          next arithmetic =>
            split at moved
            next => cases moved
            next registers computed =>
              cases moved
              exact .alu arithmetic computed
          next => cases moved

/-- Where a jump goes: past the jump and inside the program. Sums wrap, but not where the checks let them pass. -/
theorem jmp_forward (small : program.length < 2 ^ 30) (inside : state.ip.toNat < program.length)
    (taken : jmp program state insn = .ok after) :
    state.ip.toNat < (after.ip + 1).toNat ∧ (after.ip + 1).toNat < program.length := by
  unfold jmp at taken
  split at taken
  next =>
    obtain ⟨checks, same⟩ : ¬ _ ∧ _ := by
      split at taken
      next => cases taken
      next checks => exact ⟨checks, Except.ok.inj taken⟩
    rw [← same]
    obtain ⟨below, forward⟩ := not_or.mp checks
    exact ⟨BitVec.not_le.mp forward, Nat.not_le.mp below⟩
  next =>
    split at taken
    next => cases taken
    next checks =>
      simp only [not_or, Nat.not_le] at checks
      obtain ⟨-, -, thenBelow, elseBelow⟩ := checks
      have forward (offset : BitVec 8) : state.ip.toNat < (state.ip + offset.setWidth 32 + 1).toNat := by
        have short := offset.isLt
        simp only [BitVec.toNat_add, BitVec.toNat_setWidth, show (1 : BitVec 32).toNat = 1 from rfl]
        omega
      split at taken
      next =>
        obtain rfl := Except.ok.inj taken
        exact ⟨forward insn.jt, thenBelow⟩
      next =>
        obtain rfl := Except.ok.inj taken
        exact ⟨forward insn.jf, elseBelow⟩
      next => cases taken

/-- An iteration without error moves `ip` forward, at most to the end of the program. -/
theorem step_forward (small : program.length < 2 ^ 30)
    (moved : step program data state = .next after) :
    state.ip.toNat < program.length ∧ state.ip.toNat < after.ip.toNat ∧ after.ip.toNat ≤ program.length := by
  obtain ⟨insn, fetched, moved⟩ := step_next moved
  obtain ⟨inside, -⟩ := List.getElem?_eq_some_iff.mp fetched
  have succ : (state.ip + 1).toNat = state.ip.toNat + 1 := by
    simp only [BitVec.toNat_add, show (1 : BitVec 32).toNat = 1 from rfl]
    omega
  refine ⟨inside, ?_⟩
  cases moved with
  | ld => exact ⟨by rw [succ]; omega, by rw [succ]; omega⟩
  | alu => exact ⟨by rw [succ]; omega, by rw [succ]; omega⟩
  | jmp jump taken =>
    obtain ⟨forward, below⟩ := jmp_forward small inside taken
    exact ⟨forward, Nat.le_of_lt below⟩

theorem and_three_eq_zero_iff {k : BitVec 32} : k &&& 3 = 0 ↔ k.toNat % 4 = 0 := by
  rw [← BitVec.toNat_inj, BitVec.toNat_and, show (3 : BitVec 32).toNat = 2 ^ 2 - 1 from rfl,
    Nat.and_two_pow_sub_one_eq_mod]
  rfl

/-- A load that succeeds reads four bytes of the data. -/
theorem ld_inside {registers : Registers} (loaded : ld data insn = .ok registers) :
    insn.k.toNat + 4 ≤ archSeccompDataSize := by
  unfold ld at loaded
  split at loaded
  next => cases loaded
  next =>
    split at loaded
    next aligned =>
      have offset := and_three_eq_zero_iff.mp aligned.2
      have below : insn.k.toNat < 64 := aligned.1
      change insn.k.toNat + 4 ≤ 64
      omega
    next => cases loaded

theorem Iterated.le_ip (small : program.length < 2 ^ 30) {count : Nat}
    (iterated : Iterated program data count state) :
    count ≤ state.ip.toNat ∧ state.ip.toNat ≤ program.length := by
  induction iterated with
  | start => exact ⟨Nat.zero_le _, Nat.zero_le _⟩
  | next _ moved ih =>
    obtain ⟨-, forward, below⟩ := step_forward small moved
    exact ⟨Nat.lt_of_le_of_lt ih.1 forward, below⟩

theorem loop_ends (small : program.length < 2 ^ 30) (fuel : Nat) (state : State)
    (below : state.ip.toNat ≤ program.length) (enough : program.length < state.ip.toNat + fuel) :
    ∃ outcome, loop program data fuel state = some outcome := by
  induction fuel generalizing state with
  | zero => omega
  | succ fuel ih =>
    rw [loop]
    split
    next result _ => exact ⟨result, rfl⟩
    next after moved =>
      obtain ⟨-, forward, atMost⟩ := step_forward small moved
      exact ih after atMost (by omega)

/-- The loop is left within one iteration more than the program has instructions: an iteration that sets no error
fetches inside the program and moves `ip` forward, and the last one may find `ip` at the end. -/
theorem evaluateBPF_terminates (program : Program) (data : ArchSeccompData) (nonempty : 1 ≤ program.length)
    (small : program.length < SECCOMP_MAX_PROGRAM_SIZE) :
    (∃ outcome, evaluateBPF program data = some outcome ∧ loop program data (program.length + 1) start = some outcome) ∧
      ∀ count state, Iterated program data count state →
        count ≤ state.ip.toNat ∧ state.ip.toNat ≤ program.length ∧
        (∀ after, step program data state = .next after →
          state.ip.toNat < program.length ∧ state.ip < after.ip) ∧
        (∀ insn registers, program[state.ip.toNat]? = some insn → BPF_CLASS insn.code = BPF_LD →
          ld data insn = .ok registers → insn.k.toNat + 4 ≤ archSeccompDataSize) := by
  constructor
  · have ends : ∃ outcome, loop program data (program.length + 1) start = some outcome :=
      loop_ends small (program.length + 1) start (Nat.zero_le _) (Nat.lt_add_left 0 (Nat.lt_succ_self _))
    obtain ⟨outcome, ended⟩ := ends
    refine ⟨outcome, ?_, ended⟩
    rw [evaluateBPF, if_neg (not_or.mpr ⟨Nat.not_lt.mpr nonempty, Nat.not_le.mpr small⟩)]
    exact ended
  · intro count state iterated
    obtain ⟨atLeast, atMost⟩ := iterated.le_ip small
    refine ⟨atLeast, atMost, fun after moved => ?_, fun _ _ _ _ loaded => ld_inside loaded⟩
    obtain ⟨inside, forward, -⟩ := step_forward small moved
    exact ⟨inside, forward⟩

/-- An addition and no return: the second iteration finds `ip` at the end. -/
def addition : Program := [⟨0x04, 0, 0, 1⟩]

def anyCall : ArchSeccompData := ⟨0, SECCOMP_ARCH, 0, fun _ => 0⟩

theorem evaluateBPF_terminates_addition :
    evaluateBPF addition anyCall = some (.error "Invalid instruction pointer in BPF program") ∧
      ∃ outcome, evaluateBPF addition anyCall = some outcome := by
  obtain ⟨⟨outcome, ended, -⟩, -⟩ := evaluateBPF_terminates addition anyCall (by decide) (by decide)
  exact ⟨rfl, outcome, ended⟩

theorem loop_needs_one_more : ¬ ∀ (program : Program) (data : ArchSeccompData), 1 ≤ program.length →
    program.length < SECCOMP_MAX_PROGRAM_SIZE → (loop program data program.length start).isSome := by
  intro within
  exact absurd (within addition anyCall (by decide) (by decide)) (by decide)

end Libchrome.Bpf.Verifier
