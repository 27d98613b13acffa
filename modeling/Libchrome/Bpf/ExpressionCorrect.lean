import Libchrome.Bpf.Emission
import Mathlib.Data.Nat.Bitwise

/-! The emitted code of every policy construct answers as the construct's meaning says. -/

namespace Libchrome.Bpf
open Library.Checked

/-- What a condition leads to, given what its three outcomes lead to. -/
def choose (condition : Option Bool) (onTrue onFalse onPanic : Option Verdict) : Option Verdict :=
  match condition with
  | some true => onTrue
  | some false => onFalse
  | none => onPanic

theorem choose_decide (condition : Prop) [Decidable condition] (onTrue onFalse onPanic : Option Verdict) :
    choose (some (decide condition)) onTrue onFalse onPanic = if condition then onTrue else onFalse := by
  by_cases holds : condition
  · rw [if_pos holds, decide_eq_true holds]
    rfl
  · rw [if_neg holds, decide_eq_false holds]
    rfl

theorem one_bit_and {mask : BitVec 32} (one : hasExactlyOneBit mask) (word : BitVec 32) :
    word &&& mask ≠ 0 ↔ word &&& mask = mask := by
  simp only [hasExactlyOneBit, Bool.and_eq_true, decide_eq_true_eq] at one
  obtain ⟨nonzero, cleared⟩ := one
  have positive : 0 < mask.toNat := by
    apply Nat.pos_of_ne_zero
    intro zero
    exact nonzero (BitVec.eq_of_toNat_eq zero)
  have pred : (mask - 1).toNat = mask.toNat - 1 := by
    rw [BitVec.toNat_sub]
    have bounded := mask.isLt
    simp only [show (1 : BitVec 32).toNat = 1 from rfl]
    omega
  have power : mask.toNat.isPowerOfTwo := by
    apply (Nat.and_sub_one_eq_zero_iff_isPowerOfTwo (Nat.ne_of_gt positive)).1
    rw [← pred, ← BitVec.toNat_and, cleared]
    rfl
  obtain ⟨bit, maskBit⟩ := power
  have shared : (word &&& mask).toNat = (word.toNat.testBit bit).toNat * 2 ^ bit := by
    rw [BitVec.toNat_and, maskBit, Nat.and_two_pow]
  constructor
  · intro some
    apply BitVec.eq_of_toNat_eq
    cases held : word.toNat.testBit bit with
    | true => rw [shared, held, maskBit, Bool.toNat_true, Nat.one_mul]
    | false =>
      rw [held, Bool.toNat_false, Nat.zero_mul] at shared
      exact absurd (BitVec.eq_of_toNat_eq shared) some
  · intro all
    rw [all]
    exact nonzero

theorem sign_bit_and (word : BitVec 64) :
    word.extractLsb' 0 32 &&& 0x80000000 ≠ 0 ↔ word.getLsbD 31 = true := by
  rw [show (0x80000000 : BitVec 32) = BitVec.twoPow 32 31 from rfl, BitVec.and_twoPow,
    BitVec.getLsbD_extractLsb']
  cases word.getLsbD 31 <;> simp

theorem eq_of_halves {first second : BitVec 64} (lower : first.extractLsb' 0 32 = second.extractLsb' 0 32)
    (upper : first.extractLsb' 32 32 = second.extractLsb' 32 32) : first = second := by
  have split (word : BitVec (32 + 32)) : word.extractLsb' 32 32 ++ word.extractLsb' 0 32 = word :=
    BitVec.extractLsb'_append_extractLsb'
  calc
    first = first.extractLsb' 32 32 ++ first.extractLsb' 0 32 := (split first).symm
    _ = second.extractLsb' 32 32 ++ second.extractLsb' 0 32 := by rw [lower, upper]
    _ = second := split second

theorem extends32_steps {α : Type} (arg : BitVec 64) (first second : α) :
    (if arg.extractLsb' 32 32 = 0 then first
      else if arg.extractLsb' 32 32 = BitVec.allOnes 32 then
        if arg.extractLsb' 0 32 &&& 0x80000000 ≠ 0 then first else second
      else second) = if Extends32 arg then first else second := by
  by_cases zero : arg.extractLsb' 32 32 = 0
  · rw [if_pos zero, if_pos (.inl zero)]
  rw [if_neg zero]
  by_cases ones : arg.extractLsb' 32 32 = BitVec.allOnes 32
  · rw [if_pos ones]
    by_cases negative : arg.getLsbD 31 = true
    · rw [if_pos ((sign_bit_and arg).2 negative), if_pos (.inr ⟨ones, negative⟩)]
    · rw [if_neg (mt (sign_bit_and arg).1 negative), if_neg]
      intro extended
      exact extended.elim zero fun signed => negative signed.2
  · rw [if_neg ones, if_neg]
    intro extended
    exact extended.elim zero fun signed => ones signed.1

theorem masked_halves (arg mask value : BitVec 64) :
    arg &&& mask = value ↔
      arg.extractLsb' 0 32 &&& mask.extractLsb' 0 32 = value.extractLsb' 0 32 ∧
        arg.extractLsb' 32 32 &&& mask.extractLsb' 32 32 = value.extractLsb' 32 32 := by
  rw [← BitVec.extractLsb'_and, ← BitVec.extractLsb'_and]
  constructor
  · intro same
    rw [same]
    exact ⟨rfl, rfl⟩
  · intro same
    exact eq_of_halves same.1 same.2

section Halves
variable {unsafeTraps : Bool} {state : CompileState} {passed failed : Nat}
  {onTrue onFalse onPanic : ArchSeccompData → Option Verdict}

/-- The word that holds a half of an argument: the lower half comes first. -/
def argWord (argno : Fin 6) (half : Fin 2) : Fin 16 := ⟨4 + 2 * argno + half, by omega⟩

theorem argLsb_offset (argno : Fin 6) : SECCOMP_ARG_LSB_IDX argno = wordOffset (argWord argno 0) := by
  revert argno
  decide

theorem argMsb_offset (argno : Fin 6) : SECCOMP_ARG_MSB_IDX argno = wordOffset (argWord argno 1) := by
  revert argno
  decide

theorem word_arg (data : ArchSeccompData) (argno : Fin 6) (half : Fin 2) :
    data.word (argWord argno half) = (data.args argno).extractLsb' (32 * half) 32 := by
  have argument : (4 + 2 * argno.val + half.val - 4) / 2 = argno.val := by omega
  have parity : (4 + 2 * argno.val + half.val) % 2 = half.val := by omega
  simp only [ArchSeccompData.word, argWord, argument, parity]
  rw [if_neg (by omega), if_neg (by omega), if_neg (by omega), if_neg (by omega)]

theorem word_lower (data : ArchSeccompData) (argno : Fin 6) :
    data.word (argWord argno 0) = (data.args argno).extractLsb' 0 32 := word_arg data argno 0

theorem word_upper (data : ArchSeccompData) (argno : Fin 6) :
    data.word (argWord argno 1) = (data.args argno).extractLsb' 32 32 := word_arg data argno 1

theorem emits_maskedWord (sound : state.Sound unsafeTraps) (index : Fin 16) (mask value : BitVec 32)
    (first : Behaves unsafeTraps state passed Anytime onTrue)
    (second : Behaves unsafeTraps state failed Anytime onFalse) :
    Emits unsafeTraps (PolicyCompiler.maskedWord (wordOffset index) mask value passed failed) state
      (fun node later => Behaves unsafeTraps later node Anytime
        fun data => if data.word index &&& mask = value then onTrue data else onFalse data) := by
  unfold PolicyCompiler.maskedWord
  split
  next zero =>
    apply (emits_require sound).bind
    intro _ later sound _ holds
    obtain ⟨rfl, valueZero⟩ := holds
    apply Emits.pure sound
    apply first.mono
    intro data registers _
    exact ⟨trivial, (if_pos (by rw [zero, valueZero]; exact BitVec.and_zero)).symm⟩
  split
  next ones =>
    apply (emits_choice .equal sound first.weaken second.weaken).bind
    intro test later sound _ behaves
    apply emits_load sound
    apply behaves.mono
    intro data registers loaded
    refine ⟨loaded, ?_⟩
    simp only [Test.holds, ones, BitVec.and_allOnes, decide_eq_true_eq]
  split
  next valueZero =>
    apply (emits_choice .set sound second.weaken first.weaken).bind
    intro test later sound _ behaves
    apply emits_load sound
    apply behaves.mono
    intro data registers loaded
    refine ⟨loaded, ?_⟩
    simp only [Test.holds, valueZero, ne_eq, decide_eq_true_eq, ite_not]
  split
  next one =>
    apply (emits_choice .set sound first.weaken second.weaken).bind
    intro test later sound _ behaves
    apply emits_load sound
    apply behaves.mono
    intro data registers loaded
    refine ⟨loaded, ?_⟩
    simp only [Test.holds, decide_eq_true_eq, one_bit_and one.2, ← one.1]
  next =>
    apply (emits_choice .equal sound first.weaken second.weaken).bind
    intro test later sound _ behaves
    apply (emits_mask sound behaves).bind
    intro masked last sound _ behaves
    apply emits_load sound
    apply behaves.mono
    intro data registers loaded
    refine ⟨loaded, ?_⟩
    simp only [Test.holds, decide_eq_true_eq]

/-- `panics` emits a node for the panic result in every state. -/
def Panics (unsafeTraps : Bool) (panics : Emit Nat) (onPanic : ArchSeccompData → Option Verdict) : Prop :=
  ∀ state : CompileState, state.Sound unsafeTraps →
    Emits unsafeTraps panics state fun node later => Behaves unsafeTraps later node Anytime onPanic

theorem emits_extendedWord (sound : state.Sound unsafeTraps) {panics : Emit Nat}
    (panic : Panics unsafeTraps panics onPanic) (argno : Fin 6)
    (first : Behaves unsafeTraps state passed Anytime onTrue) :
    Emits unsafeTraps (PolicyCompiler.extendedWord panics argno passed) state (fun node later =>
      Behaves unsafeTraps later node Anytime
        fun data => if Extends32 (data.args argno) then onTrue data else onPanic data) := by
  unfold PolicyCompiler.extendedWord
  rw [argLsb_offset, argMsb_offset]
  apply (panic state sound).bind
  intro invalid later sound grown second
  have first := first.grows grown
  apply (emits_choice .set sound first.weaken second.weaken).bind
  intro sign later sound grown signed
  have first := first.grows grown
  have second := second.grows grown
  apply (emits_load sound _ signed).bind
  intro lower later sound grown lowered
  have first := first.grows grown
  have second := second.grows grown
  apply (emits_choice .equal sound lowered.weaken second.weaken).bind
  intro ones later sound grown onesChosen
  have first := first.grows grown
  apply (emits_choice .equal sound first.weaken onesChosen).bind
  intro zeros last sound _ zerosChosen
  apply emits_load sound
  apply zerosChosen.mono
  intro data registers loaded
  refine ⟨loaded, ?_⟩
  simp only [Test.holds, word_lower, word_upper, decide_eq_true_eq]
  exact extends32_steps (data.args argno) (onTrue data) (onPanic data)

theorem emits_maskedEqual (sound : state.Sound unsafeTraps) {panics : Emit Nat}
    (panic : Panics unsafeTraps panics onPanic) (argno : Int) (width : Nat) (mask value : BitVec 64)
    (first : Behaves unsafeTraps state passed Anytime onTrue)
    (second : Behaves unsafeTraps state failed Anytime onFalse) :
    Emits unsafeTraps (PolicyCompiler.maskedEqual panics argno width mask value passed failed) state
      (fun node later => Behaves unsafeTraps later node Anytime fun data =>
        choose ((BoolExpr.maskedEqual argno width mask value).eval data) (onTrue data) (onFalse data)
          (onPanic data)) := by
  unfold PolicyCompiler.maskedEqual
  apply (emits_require sound).bind
  intro _ later sound _ holds
  obtain ⟨rfl, inside⟩ := holds
  apply (emits_require sound).bind
  intro _ later sound _ holds
  obtain ⟨rfl, known⟩ := holds
  apply (emits_require sound).bind
  intro _ later sound _ holds
  obtain ⟨rfl, _⟩ := holds
  apply (emits_require sound).bind
  intro _ later sound _ holds
  obtain ⟨rfl, _⟩ := holds
  apply (emits_require sound).bind
  intro _ later sound _ holds
  obtain ⟨rfl, maskFits⟩ := holds
  apply (emits_require sound).bind
  intro _ later sound _ holds
  obtain ⟨rfl, valueFits⟩ := holds
  obtain ⟨argno, rfl⟩ : ∃ number : Fin 6, argno = (number.val : Int) :=
    ⟨⟨argno.toNat, by omega⟩, (Int.toNat_of_nonneg inside.1).symm⟩
  have arg (data : ArchSeccompData) : data.arg argno = data.args argno := by
    rw [ArchSeccompData.arg, dif_pos inside]
    rfl
  simp only [PolicyCompiler.maskedEqualHalf, Int.toNat_natCast]
  rw [argLsb_offset, argMsb_offset]
  apply (emits_maskedWord sound (argWord argno 0) _ _ first second).bind
  intro lower later sound grown lowered
  by_cases narrow : width = 4
  · rw [if_pos narrow]
    apply (emits_extendedWord sound panic argno lowered).mono
    intro node last _ behaves
    apply behaves.mono
    intro data registers _
    refine ⟨trivial, ?_⟩
    have compared : (data.args argno).extractLsb' 0 32 &&& mask.extractLsb' 0 32 = value.extractLsb' 0 32 ↔
        data.args argno &&& mask = value := by
      rw [masked_halves, maskFits narrow, valueFits narrow]
      exact (and_iff_left BitVec.and_zero).symm
    simp only [BoolExpr.eval, arg, word_lower, compared, narrow, true_and]
    by_cases extended : Extends32 (data.args argno)
    · rw [if_pos extended, if_neg (not_not.2 extended), choose_decide]
    · rw [if_neg extended, if_pos extended]
      rfl
  · rw [if_neg narrow]
    apply (emits_maskedWord sound (argWord argno 1) _ _ lowered (second.grows grown)).mono
    intro node last _ behaves
    apply behaves.mono
    intro data registers _
    refine ⟨trivial, ?_⟩
    simp only [BoolExpr.eval, arg, word_lower, word_upper, narrow, false_and, if_false, choose_decide,
      masked_halves (data.args argno)]
    by_cases upper : (data.args argno).extractLsb' 32 32 &&& mask.extractLsb' 32 32 = value.extractLsb' 32 32
    · rw [if_pos upper]
      simp only [upper, and_true]
    · rw [if_neg upper, if_neg fun both => upper both.2]

end Halves

section Expressions
variable {unsafeTraps : Bool} {onPanic : ArchSeccompData → Option Verdict}

theorem emits_compileBool {panics : Emit Nat} (panic : Panics unsafeTraps panics onPanic) (cond : BoolExpr)
    {state : CompileState} (sound : state.Sound unsafeTraps) {then_node else_node : Nat}
    {onTrue onFalse : ArchSeccompData → Option Verdict}
    (first : Behaves unsafeTraps state then_node Anytime onTrue)
    (second : Behaves unsafeTraps state else_node Anytime onFalse) :
    Emits unsafeTraps (PolicyCompiler.compileBool panics cond then_node else_node) state (fun node later =>
      Behaves unsafeTraps later node Anytime
        fun data => choose (cond.eval data) (onTrue data) (onFalse data) (onPanic data)) := by
  induction cond generalizing state then_node else_node onTrue onFalse with
  | constBool value =>
    cases value with
    | true => exact Emits.pure sound first
    | false => exact Emits.pure sound second
  | maskedEqual argno width mask value =>
    exact emits_maskedEqual sound panic argno width mask value first second
  | negate cond ih =>
    apply (ih sound second first).mono
    intro node later _ behaves
    apply behaves.mono
    intro data registers _
    refine ⟨trivial, ?_⟩
    rw [BoolExpr.eval]
    cases cond.eval data with
    | none => rfl
    | some value => cases value <;> rfl
  | and lhs rhs leftIh rightIh =>
    apply (rightIh sound first second).bind
    intro rhsNode later sound grown right
    apply (leftIh sound right (second.grows grown)).mono
    intro node last _ behaves
    apply behaves.mono
    intro data registers _
    refine ⟨trivial, ?_⟩
    rw [BoolExpr.eval]
    cases lhs.eval data with
    | none => rfl
    | some value => cases value <;> rfl
  | or lhs rhs leftIh rightIh =>
    apply (rightIh sound first second).bind
    intro rhsNode later sound grown right
    apply (leftIh sound (first.grows grown) right).mono
    intro node last _ behaves
    apply behaves.mono
    intro data registers _
    refine ⟨trivial, ?_⟩
    rw [BoolExpr.eval]
    cases lhs.eval data with
    | none => rfl
    | some value => cases value <;> rfl

theorem trap_action (id : BitVec 16) :
    (SECCOMP_RET_TRAP + id.setWidth 32) &&& SECCOMP_RET_ACTION = SECCOMP_RET_TRAP :=
  Dsl.action_add SECCOMP_RET_TRAP id (by decide)

theorem emits_trap {state : CompileState} (sound : state.Sound unsafeTraps) {decision : Verdict} (key : TrapKey)
    (redirected : decision.redirect unsafeTraps = .trap key) :
    Emits unsafeTraps (PolicyCompiler.trap key.fnc key.aux key.safe) state
      (fun node later => Behaves unsafeTraps later node Anytime fun _ => some decision) := by
  unfold Emits PolicyCompiler.trap
  cases added : state.registry_.add key.fnc key.aux key.safe with
  | error death => trivial
  | ok result =>
    obtain ⟨id, registry⟩ := result
    have ⟨grown, registered⟩ := Trap.add_registers added
    have action := trap_action id
    have noErrno : unsafeTraps = true →
        (SECCOMP_RET_TRAP + id.setWidth 32) &&& SECCOMP_RET_ACTION ≠ SECCOMP_RET_ERRNO := by
      intro _
      rw [action]
      decide
    have encoded : (decision.redirect unsafeTraps).EncodedBy registry (SECCOMP_RET_TRAP + id.setWidth 32) := by
      rw [redirected]
      exact ⟨id, registered, rfl⟩
    have kept : CompileState.Sound unsafeTraps { state with registry_ := registry } :=
      ⟨sound.valid, sound.noErrno⟩
    apply Ensures.mono (emits_return kept (.inr action) noErrno encoded)
    intro result holds
    exact ⟨holds.1, ⟨holds.2.1.gen, grown.trans holds.2.1.registry⟩, holds.2.2⟩

theorem emits_return_ (pc : PolicyCompiler) {state : CompileState} (sound : state.Sound pc.has_unsafe_traps_)
    {ret : BitVec 32} (legal : IsReturnValue ret) :
    Emits pc.has_unsafe_traps_ (pc.return_ ret) state
      (fun node later => Behaves pc.has_unsafe_traps_ later node Anytime fun _ => some (.returns ret)) := by
  unfold PolicyCompiler.return_
  by_cases redirect : pc.has_unsafe_traps_ = true ∧ ret &&& SECCOMP_RET_ACTION = SECCOMP_RET_ERRNO
  · rw [if_pos redirect]
    exact emits_trap sound ⟨.ReturnErrno, (ret &&& SECCOMP_RET_DATA).setWidth 64, true⟩ (if_pos redirect)
  · rw [if_neg redirect]
    apply emits_return sound (.inl legal) (fun mode errno => redirect ⟨mode, errno⟩)
    rw [Verdict.redirect, if_neg redirect]
    rfl

theorem emits_compileExpr (pc : PolicyCompiler) {panics : Emit Nat}
    (panic : Panics pc.has_unsafe_traps_ panics onPanic) (res : ResultExpr) {state : CompileState}
    (sound : state.Sound pc.has_unsafe_traps_) :
    Emits pc.has_unsafe_traps_ (pc.compileExpr panics res) state (fun node later =>
      Behaves pc.has_unsafe_traps_ later node Anytime fun data => res.eval data (onPanic data)) := by
  induction res generalizing state with
  | returnResult ret legal => exact emits_return_ pc sound legal
  | trapResult func arg safe => exact emits_trap sound ⟨func, arg, safe⟩ rfl
  | ifThenResult cond thenResult elseResult thenIh elseIh =>
    apply (thenIh sound).bind
    intro thenNode later sound _ first
    apply (elseIh sound).bind
    intro elseNode later sound grown second
    apply (emits_compileBool panic cond sound (first.grows grown) second).mono
    intro node last _ behaves
    apply behaves.mono
    intro data registers _
    refine ⟨trivial, ?_⟩
    rw [ResultExpr.eval]
    cases cond.eval data with
    | none => rfl
    | some value => cases value <;> rfl

theorem panics_compilePanic (pc : PolicyCompiler) (depth : Nat) (error : String) :
    Panics pc.has_unsafe_traps_ (pc.compilePanic depth error) fun data => pc.panicVerdict data depth error := by
  induction depth generalizing error with
  | zero =>
    intro state sound
    exact emits_throw
  | succ depth ih =>
    intro state sound
    exact emits_compileExpr pc (ih PolicyCompiler.unexpected64bitError) (pc.panic_func_ error) sound

/-- The verdict of a result expression under the compiler's own panic result. -/
def PolicyCompiler.resultVerdict (pc : PolicyCompiler) (depth : Nat) (res : ResultExpr)
    (data : ArchSeccompData) : Option Verdict :=
  res.eval data (pc.panicVerdict data depth unexpected64bitError)

theorem emits_compileResult (pc : PolicyCompiler) (depth : Nat) (res : ResultExpr) {state : CompileState}
    (sound : state.Sound pc.has_unsafe_traps_) :
    Emits pc.has_unsafe_traps_ (pc.compileResult depth res) state (fun node later =>
      Behaves pc.has_unsafe_traps_ later node Anytime (pc.resultVerdict depth res)) :=
  emits_compileExpr pc (panics_compilePanic pc depth _) res sound

end Expressions
end Libchrome.Bpf
