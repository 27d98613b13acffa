import Libchrome.Bpf.DispatchCorrect

/-! Compiled policies decide every system call as the policy does, with and without unsafe traps. -/

namespace Libchrome.Bpf
open Library.ForwardCode Library.Checked

namespace PolicyCompiler

/-- The verdict once the architecture is known to be right. -/
def dispatchVerdict (pc : PolicyCompiler) (depth : Nat) (data : ArchSeccompData) : Option Verdict :=
  if data.nr &&& 0x40000000 ≠ 0 then pc.panicVerdict data depth "Illegal mixing of system call ABIs"
  else pc.syscallVerdict depth data

/-- The call comes from the escape PC, and unsafe traps let it through. -/
abbrev escapes (pc : PolicyCompiler) (data : ArchSeccompData) : Prop :=
  data.instruction_pointer.extractLsb' 0 32 = pc.escapepc_.extractLsb' 0 32 ∧
    data.instruction_pointer.extractLsb' 32 32 = pc.escapepc_.extractLsb' 32 32

/-- What a compiled filter enforces: the policy, behind the escape hatch if there is one. -/
def enforced (pc : PolicyCompiler) (depth : Nat) (data : ArchSeccompData) : Option Verdict :=
  if data.arch = SECCOMP_ARCH ∧ pc.has_unsafe_traps_ = true ∧ pc.escapes data then
    some (.returns SECCOMP_RET_ALLOW)
  else pc.denote depth data

end PolicyCompiler

section Assembly
variable {pc : PolicyCompiler} {depth : Nat} {state : CompileState}

theorem emits_checkSyscallNumber (sound : state.Sound pc.has_unsafe_traps_) {passed : Nat}
    (searches : Searches pc depth state 0 (2 ^ 32) passed) :
    Emits pc.has_unsafe_traps_ (pc.checkSyscallNumber depth passed) state (fun node later =>
      Behaves pc.has_unsafe_traps_ later node (Loaded (·.nr)) (pc.dispatchVerdict depth)) := by
  apply (panics_compilePanic pc depth _ state sound).bind
  intro invalidX32 later sound grown panics
  have known : Behaves pc.has_unsafe_traps_ later passed (Loaded (·.nr)) (pc.syscallVerdict depth) := by
    apply (Behaves.grows searches grown).mono
    intro data registers loaded
    exact ⟨⟨loaded, Nat.zero_le _, data.nr.isLt⟩, rfl⟩
  apply (emits_choice .set sound panics.weaken known).mono
  intro node last _ behaves
  apply behaves.mono
  intro data registers loaded
  refine ⟨loaded, ?_⟩
  simp only [Test.holds, decide_eq_true_eq, PolicyCompiler.dispatchVerdict]

theorem emits_dispatchSyscall (sound : state.Sound pc.has_unsafe_traps_) :
    Emits pc.has_unsafe_traps_ (pc.dispatchSyscall depth) state (fun node later =>
      Behaves pc.has_unsafe_traps_ later node Anytime (pc.dispatchVerdict depth)) := by
  apply (emits_findRanges sound).bind
  intro ranges later sound _ divides
  apply (emits_assembleJumpTable ranges sound divides).bind
  intro jumptable later sound _ searches
  apply (emits_checkSyscallNumber sound searches).bind
  intro number later sound _ behaves
  exact emits_load sound 0 behaves

theorem emits_enableUnsafeTraps {unsafeTraps : Bool} (sound : state.Sound unsafeTraps) :
    Emits unsafeTraps PolicyCompiler.enableUnsafeTraps state (fun _ _ => True) := by
  unfold Emits PolicyCompiler.enableUnsafeTraps
  cases enabled : state.registry_.enableUnsafeTraps with
  | mk allowed registry =>
    cases allowed with
    | false => trivial
    | true =>
      have kept : state.registry_.Grows registry := by
        unfold Trap.enableUnsafeTraps at enabled
        split at enabled
        · cases enabled
          exact .refl _
        · split at enabled
          · cases enabled
            exact .refl _
          · cases enabled
      exact ⟨⟨sound.valid, sound.noErrno⟩, ⟨.refl _, kept⟩, trivial⟩

theorem emits_maybeAddEscapeHatch (sound : state.Sound pc.has_unsafe_traps_) {rest : Nat}
    {verdict : ArchSeccompData → Option Verdict}
    (behaves : Behaves pc.has_unsafe_traps_ state rest Anytime verdict) :
    Emits pc.has_unsafe_traps_ (pc.maybeAddEscapeHatch depth rest) state (fun node later =>
      Behaves pc.has_unsafe_traps_ later node Anytime fun data =>
        if pc.has_unsafe_traps_ = true ∧ pc.escapes data then some (.returns SECCOMP_RET_ALLOW)
        else verdict data) := by
  unfold PolicyCompiler.maybeAddEscapeHatch
  by_cases safe : pc.has_unsafe_traps_ = false
  · rw [if_pos safe]
    apply Emits.pure sound
    apply behaves.mono
    intro data registers _
    rw [if_neg fun hatch => absurd (safe.symm.trans hatch.1) (by decide)]
    exact ⟨trivial, rfl⟩
  · rw [if_neg safe]
    apply (emits_enableUnsafeTraps sound).bind
    intro _ later sound grown _
    have behaves := behaves.grows grown
    apply (emits_compileResult pc depth Dsl.allow sound).bind
    intro allowed later sound grown allows
    have behaves := behaves.grows grown
    apply (emits_choice .equal sound allows.weaken behaves.weaken).bind
    intro high later sound grown highChosen
    have behaves := behaves.grows grown
    apply (emits_load sound 3 highChosen).bind
    intro loadHigh later sound grown highLoaded
    have behaves := behaves.grows grown
    apply (emits_choice .equal sound highLoaded.weaken behaves.weaken).bind
    intro low last sound _ lowChosen
    apply (emits_load sound 2 lowChosen).mono
    intro node final _ loaded
    apply loaded.mono
    intro data registers _
    refine ⟨trivial, ?_⟩
    have mode : pc.has_unsafe_traps_ = true := Bool.of_not_eq_false safe
    have lowWord : data.word 2 = data.instruction_pointer.extractLsb' 0 32 := rfl
    have highWord : data.word 3 = data.instruction_pointer.extractLsb' 32 32 := rfl
    simp only [Test.holds, decide_eq_true_eq, mode, true_and, lowWord, highWord, ite_and]
    rfl

theorem emits_checkArch (sound : state.Sound pc.has_unsafe_traps_) {passed : Nat}
    {verdict : ArchSeccompData → Option Verdict}
    (behaves : Behaves pc.has_unsafe_traps_ state passed Anytime verdict) :
    Emits pc.has_unsafe_traps_ (pc.checkArch depth passed) state (fun node later =>
      Behaves pc.has_unsafe_traps_ later node Anytime fun data =>
        if data.arch = SECCOMP_ARCH then verdict data
        else pc.panicVerdict data depth "Invalid audit architecture in BPF filter") := by
  apply (panics_compilePanic pc depth _ state sound).bind
  intro invalid later sound grown panics
  apply (emits_choice .equal sound (behaves.grows grown).weaken panics.weaken).bind
  intro test later sound _ chosen
  apply (emits_load sound 1 chosen).mono
  intro node last _ loaded
  apply loaded.mono
  intro data registers _
  refine ⟨trivial, ?_⟩
  have word : data.word 1 = data.arch := rfl
  simp only [Test.holds, decide_eq_true_eq, word]

theorem enforced_eq (pc : PolicyCompiler) (depth : Nat) (data : ArchSeccompData) :
    pc.enforced depth data =
      if data.arch = SECCOMP_ARCH then
        if pc.has_unsafe_traps_ = true ∧ pc.escapes data then some (.returns SECCOMP_RET_ALLOW)
        else pc.dispatchVerdict depth data
      else pc.panicVerdict data depth "Invalid audit architecture in BPF filter" := by
  unfold PolicyCompiler.enforced PolicyCompiler.denote
  by_cases arch : data.arch = SECCOMP_ARCH
  · rw [if_pos arch, if_neg (not_not.2 arch)]
    simp only [arch, true_and]
    rfl
  · rw [if_neg arch, if_pos arch, if_neg fun hatch => arch hatch.1]

theorem emits_assemblePolicy (sound : state.Sound pc.has_unsafe_traps_) :
    Emits pc.has_unsafe_traps_ (pc.assemblePolicy depth) state (fun node later =>
      Behaves pc.has_unsafe_traps_ later node Anytime (pc.enforced depth)) := by
  apply (emits_dispatchSyscall sound).bind
  intro dispatch later sound _ dispatches
  apply (emits_maybeAddEscapeHatch sound dispatches).bind
  intro rest later sound _ hatched
  apply (emits_checkArch sound hatched).mono
  intro node last _ behaves
  apply behaves.mono
  intro data registers _
  exact ⟨trivial, (enforced_eq pc depth data).symm⟩

theorem emits_checkPolicy {unsafeTraps : Bool} (pc : PolicyCompiler) (sound : state.Sound unsafeTraps) :
    Emits unsafeTraps pc.checkPolicy state (fun _ _ => True) := by
  unfold PolicyCompiler.checkPolicy
  apply (emits_require sound).bind
  intro _ later sound _ _
  split
  · apply (emits_require sound).bind
    intro _ later sound _ _
    apply (emits_require sound).bind
    intro _ later sound _ _
    exact emits_enableUnsafeTraps sound
  · exact Emits.pure sound trivial

end Assembly

/-- What a successful compilation guarantees about the program it returns. -/
structure Enforces (pc : PolicyCompiler) (depth : Nat) (program : Program) (registry : Trap) : Prop where
  answers : ∀ data, Answers pc.has_unsafe_traps_ registry (pc.enforced depth data) (Verifier.evaluateBPF program data)
  noErrno : pc.has_unsafe_traps_ = true → ∀ insn ∈ program, ¬insn.returnsErrno

theorem compile_enforces {pc : PolicyCompiler} {depth : Nat} {registry later : Trap} {program : Program}
    (compiled : pc.compile depth registry = .ok (program, later)) : Enforces pc depth program later := by
  have start : CompileState.Sound pc.has_unsafe_traps_ ⟨{}, registry⟩ :=
    ⟨CodeGen.valid_empty, by intro _ insn member; cases member⟩
  have ensured : Ensures (fun _ => True) (pc.compile depth registry)
      (fun result => Enforces pc depth result.1 result.2) := by
    refine Ensures.bind (emits_checkPolicy pc start) fun checked ⟨sound, _, _⟩ => ?_
    refine Ensures.bind (emits_assemblePolicy sound) fun assembled ⟨sound, _, behaves⟩ => ?_
    simp only
    rw [CodeGen.compile_eq behaves.emitted]
    have length := codeAt_length assembled.2.gen_.program_ assembled.1 behaves.emitted
    have emitted : assembled.1 < assembled.2.gen_.program_.length := behaves.emitted
    have sized : assembled.2.gen_.program_.length ≤ 4096 := sound.valid.sized
    refine ⟨fun data => ?_, fun mode insn member => ?_⟩
    · have answers := behaves.answers data ⟨0, false⟩ trivial
      have closed := CodeGen.closed_codeAt sound.valid behaves.emitted
      rw [evaluateBPF_eq_run data closed (by omega) (by omega)]
      exact answers
    · apply sound.noErrno mode insn
      exact List.mem_of_mem_take (List.mem_reverse.1 member)
  exact ensured.of_ok compiled
/-- Policy compilation preserves meaning: a filter compiled from a policy without unsafe traps
runs without error on every record and returns what the policy's meaning calls for. -/
theorem compile_preserves_meaning {pc : PolicyCompiler} {depth : Nat} {registry later : Trap} {program : Program}
    (safe : hasUnsafeTraps pc.policy_ = false) (compiled : pc.compile depth registry = .ok (program, later))
    (data : ArchSeccompData) :
    ∃ verdict value, pc.denote depth data = some verdict ∧ verdict.EncodedBy later value ∧
      Verifier.evaluateBPF program data = some (.ok value) := by
  have mode : pc.has_unsafe_traps_ = false := pc.constructed.trans safe
  obtain ⟨verdict, value, decided, evaluated, encoded⟩ := (compile_enforces compiled).answers data
  have enforced : pc.enforced depth data = pc.denote depth data := by
    rw [PolicyCompiler.enforced, if_neg fun hatch => absurd (mode.symm.trans hatch.2.1) (by decide)]
  have kept : verdict.redirect pc.has_unsafe_traps_ = verdict := by
    rw [mode]
    cases verdict <;> rfl
  rw [kept] at encoded
  exact ⟨verdict, value, enforced ▸ decided, encoded, evaluated⟩

/-- `getpgid` fails, with an error that depends on its argument, and `setuid` is allowed for one user. -/
def basicPolicy : Policy where
  evaluateSyscall sysnum :=
    if sysnum = 121 then
      (Dsl.ifThen (.maskedEqual 0 4 0xffffffff 0) (.returnResult 0x00050001 (.inr (.inl rfl)))).else_
        (.returnResult 0x00050016 (.inr (.inl rfl)))
    else if sysnum = 105 then
      (Dsl.ifThen (.negate (.maskedEqual 0 4 0xffffffff 42)) Dsl.kill).else_ Dsl.allow
    else Dsl.allow
  invalidSyscall := .returnResult 0x00050026 (.inr (.inl rfl))

theorem compile_preserves_meaning_basic :
    ∃ program later, (PolicyCompiler.new basicPolicy).compile 2 (Trap.fresh false) = .ok (program, later) ∧
      ∀ data, ∃ verdict value, (PolicyCompiler.new basicPolicy).denote 2 data = some verdict ∧
        verdict.EncodedBy later value ∧ Verifier.evaluateBPF program data = some (.ok value) := by
  have succeeded : ((PolicyCompiler.new basicPolicy).compile 2 (Trap.fresh false)).isOk = true := by
    decide +kernel
  obtain ⟨⟨program, later⟩, compiled⟩ := exists_of_isOk succeeded
  have safe : hasUnsafeTraps basicPolicy = false := by decide +kernel
  exact ⟨program, later, compiled, compile_preserves_meaning safe compiled⟩

/-- Under unsafe traps the filter allows calls from the escape PC, turns every error into a trap that
reports it, follows the policy otherwise, and contains no return of an error. -/
theorem compile_redirects_errors {pc : PolicyCompiler} {depth : Nat} {registry later : Trap} {program : Program}
    (unsafeTraps : hasUnsafeTraps pc.policy_ = true)
    (compiled : pc.compile depth registry = .ok (program, later)) :
    (∀ data, data.arch = SECCOMP_ARCH ∧ pc.escapes data →
      Verifier.evaluateBPF program data = some (.ok SECCOMP_RET_ALLOW)) ∧
    (∀ data, ¬(data.arch = SECCOMP_ARCH ∧ pc.escapes data) →
      ∃ verdict value, pc.denote depth data = some verdict ∧ (verdict.redirect true).EncodedBy later value ∧
        Verifier.evaluateBPF program data = some (.ok value)) ∧
    (∀ err res, Dsl.error err = .ok res → ∃ ret, (∀ data panic, res.eval data panic = some (.returns ret)) ∧
      (Verdict.returns ret).redirect true = .trap ⟨.ReturnErrno, BitVec.ofInt 64 err, true⟩) ∧
    ∀ insn ∈ program, BPF_CLASS insn.code = BPF_RET → insn.k &&& SECCOMP_RET_ACTION ≠ SECCOMP_RET_ERRNO := by
  have mode : pc.has_unsafe_traps_ = true := pc.constructed.trans unsafeTraps
  have enforces := compile_enforces compiled
  refine ⟨fun data escape => ?_, fun data stays => ?_, fun err res => redirect_error,
    fun insn member ret errno => ?_⟩
  · obtain ⟨verdict, value, decided, evaluated, encoded⟩ := enforces.answers data
    rw [PolicyCompiler.enforced, if_pos ⟨escape.1, mode, escape.2⟩] at decided
    cases decided
    rw [mode] at encoded
    obtain rfl : value = SECCOMP_RET_ALLOW := encoded
    exact evaluated
  · obtain ⟨verdict, value, decided, evaluated, encoded⟩ := enforces.answers data
    rw [PolicyCompiler.enforced, if_neg fun hatch => stays ⟨hatch.1, hatch.2.2⟩] at decided
    rw [mode] at encoded
    exact ⟨verdict, value, decided, encoded, evaluated⟩
  · exact enforces.noErrno mode insn member ⟨ret, errno⟩

/-- `getpgid` fails and `open` is handed to an unsafe trap; everything else is allowed. -/
def redirectingPolicy : Policy where
  evaluateSyscall sysnum :=
    if sysnum = 121 then .returnResult 0x00050001 (.inr (.inl rfl))
    else if sysnum = 2 then Dsl.unsafeTrap (.handler 0x1000) 0
    else Dsl.allow
  invalidSyscall := .returnResult 0x00050026 (.inr (.inl rfl))

/-- The compiler of that policy, with the address the trap handlers call from. -/
def redirectingCompiler : PolicyCompiler :=
  (PolicyCompiler.new redirectingPolicy).dangerousSetEscapePC 0x7f0000401000

theorem compile_redirects_errors_redirecting :
    ∃ program later, redirectingCompiler.compile 2 (Trap.fresh true) = .ok (program, later) ∧
      ∀ data, data.arch = SECCOMP_ARCH ∧ redirectingCompiler.escapes data →
        Verifier.evaluateBPF program data = some (.ok SECCOMP_RET_ALLOW) := by
  have succeeded : (redirectingCompiler.compile 2 (Trap.fresh true)).isOk = true := by decide +kernel
  obtain ⟨⟨program, later⟩, compiled⟩ := exists_of_isOk succeeded
  have unsafeTraps : hasUnsafeTraps redirectingCompiler.policy_ = true := by decide +kernel
  exact ⟨program, later, compiled, (compile_redirects_errors unsafeTraps compiled).1⟩

end Libchrome.Bpf
