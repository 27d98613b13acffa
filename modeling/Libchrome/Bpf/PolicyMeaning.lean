import Libchrome.Bpf.PolicyCompiler

/-! What a policy says about a system call, independently of how it is compiled. -/

namespace Libchrome.Bpf

/-- The decision a policy reaches: a return value, or a trap that is yet to be numbered. -/
inductive Verdict where
  | returns (value : BitVec 32)
  | trap (key : TrapKey)
  deriving DecidableEq, Repr

/-- With unsafe traps every error is handed to a trap that reports it from user space. -/
def Verdict.redirect (unsafeTraps : Bool) : Verdict → Verdict
  | .returns value =>
      if unsafeTraps ∧ value &&& SECCOMP_RET_ACTION = SECCOMP_RET_ERRNO then
        .trap ⟨.ReturnErrno, (value &&& SECCOMP_RET_DATA).setWidth 64, true⟩
      else .returns value
  | .trap key => .trap key

/-- `value` is how a filter expresses the verdict, given the trap ids of `registry`. -/
def Verdict.EncodedBy (registry : Trap) (verdict : Verdict) (value : BitVec 32) : Prop :=
  match verdict with
  | .returns expected => value = expected
  | .trap key => ∃ id, registry.handlerOf id = some key ∧ value = SECCOMP_RET_TRAP + id.setWidth 32

/-- The system call argument a comparison names. -/
def ArchSeccompData.arg (data : ArchSeccompData) (argno : Int) : BitVec 64 :=
  if inside : argno ≥ 0 ∧ argno < 6 then data.args ⟨argno.toNat, by omega⟩ else 0

/-- A 32-bit argument is acceptable when its upper half extends the lower half by zeros or by its sign. -/
def Extends32 (arg : BitVec 64) : Prop :=
  arg.extractLsb' 32 32 = 0 ∨ arg.extractLsb' 32 32 = BitVec.allOnes 32 ∧ arg.getLsbD 31 = true

instance (arg : BitVec 64) : Decidable (Extends32 arg) := inferInstanceAs (Decidable (_ ∨ _ ∧ _))

/-- Short-circuit evaluation from left to right; `none` is an unexpected 64-bit argument. -/
def BoolExpr.eval (data : ArchSeccompData) : BoolExpr → Option Bool
  | .constBool value_ => some value_
  | .maskedEqual argno_ width_ mask_ value_ =>
      if width_ = 4 ∧ ¬Extends32 (data.arg argno_) then none
      else some (data.arg argno_ &&& mask_ = value_)
  | .negate cond_ => (cond_.eval data).map (!·)
  | .and lhs_ rhs_ =>
      match lhs_.eval data with
      | some true => rhs_.eval data
      | other => other
  | .or lhs_ rhs_ =>
      match lhs_.eval data with
      | some false => rhs_.eval data
      | other => other

/-- The verdict of an expression; `panic` is the verdict on an unexpected 64-bit argument. -/
def ResultExpr.eval (data : ArchSeccompData) (panic : Option Verdict) : ResultExpr → Option Verdict
  | .returnResult ret_ _ => some (.returns ret_)
  | .trapResult func_ arg_ safe_ => some (.trap ⟨func_, arg_, safe_⟩)
  | .ifThenResult cond_ then_result_ else_result_ =>
      match cond_.eval data with
      | some true => then_result_.eval data panic
      | some false => else_result_.eval data panic
      | none => panic

/-- An error becomes a trap that hands its number to `ReturnErrno`. -/
theorem redirect_error {err : Int} {res : ResultExpr} (built : Dsl.error err = .ok res) :
    ∃ ret, (∀ data panic, res.eval data panic = some (.returns ret)) ∧
      (Verdict.returns ret).redirect true = .trap ⟨.ReturnErrno, BitVec.ofInt 64 err, true⟩ := by
  unfold Dsl.error Libchrome.Library.Checked.check at built
  split at built
  next range =>
    cases built
    refine ⟨SECCOMP_RET_ERRNO + (BitVec.ofInt 16 err).setWidth 32, fun _ _ => rfl, ?_⟩
    have action := Dsl.action_add SECCOMP_RET_ERRNO (BitVec.ofInt 16 err) rfl
    have aux : ((BitVec.ofInt 16 err).setWidth 32).setWidth 64 = BitVec.ofInt 64 err := by
      apply BitVec.eq_of_toNat_eq
      simp only [BitVec.toNat_setWidth, BitVec.toNat_ofInt]
      omega
    rw [Verdict.redirect, if_pos ⟨rfl, action⟩, Dsl.data_add _ _ rfl, aux]
  next => cases built

namespace PolicyCompiler

/-- The panic result for an error, `none` when evaluating it panics `depth` times over. -/
def panicVerdict (pc : PolicyCompiler) (data : ArchSeccompData) : Nat → String → Option Verdict
  | 0, _ => none
  | depth + 1, error => (pc.panic_func_ error).eval data (pc.panicVerdict data depth unexpected64bitError)

/-- The reference meaning of a policy. -/
def denote (pc : PolicyCompiler) (depth : Nat) (data : ArchSeccompData) : Option Verdict :=
  if data.arch ≠ SECCOMP_ARCH then
    pc.panicVerdict data depth "Invalid audit architecture in BPF filter"
  else if data.nr &&& 0x40000000 ≠ 0 then
    pc.panicVerdict data depth "Illegal mixing of system call ABIs"
  else if SyscallSet.isValid data.nr then
    (pc.policy_.evaluateSyscall data.nr).eval data (pc.panicVerdict data depth unexpected64bitError)
  else pc.policy_.invalidSyscall.eval data (pc.panicVerdict data depth unexpected64bitError)

end PolicyCompiler

namespace Dsl

/-- The first clause whose condition holds decides; an unexpected argument on the way panics. -/
def evalClauses (data : ArchSeccompData) (panic otherwise : Option Verdict) :
    List (BoolExpr × ResultExpr) → Option Verdict
  | [] => otherwise
  | (cond, result) :: rest =>
      match cond.eval data with
      | some true => result.eval data panic
      | some false => evalClauses data panic otherwise rest
      | none => panic

section Chains
variable (data : ArchSeccompData) (panic otherwise : Option Verdict)

theorem evalClauses_append (front back : List (BoolExpr × ResultExpr)) :
    evalClauses data panic otherwise (front ++ back) =
      evalClauses data panic (evalClauses data panic otherwise back) front := by
  induction front with
  | nil => rfl
  | cons clause rest ih => rw [List.cons_append, evalClauses, evalClauses, ih]

theorem eval_foldl (clauses : List (BoolExpr × ResultExpr)) (expr : ResultExpr) :
    (clauses.foldl (fun expr clause => ResultExpr.ifThenResult clause.1 clause.2 expr) expr).eval data panic =
      evalClauses data panic (expr.eval data panic) clauses.reverse := by
  induction clauses generalizing expr with
  | nil => rfl
  | cons clause rest ih =>
    rw [List.foldl_cons, ih, List.reverse_cons, evalClauses_append]
    rfl

end Chains

/-- An If/ElseIf/Else chain, and so a Switch, decides by its first clause that holds, in source order. -/
theorem eval_else (data : ArchSeccompData) (panic : Option Verdict) (elser : Elser) (otherwise : ResultExpr) :
    (elser.else_ otherwise).eval data panic =
      evalClauses data panic (otherwise.eval data panic) elser.clause_list_.reverse :=
  eval_foldl data panic elser.clause_list_ otherwise

theorem eval_anyOf (data : ArchSeccompData) (first : BoolExpr) (rest : List BoolExpr) :
    (anyOf (first :: rest)).eval data =
      match first.eval data with
      | some false => (anyOf rest).eval data
      | other => other := by
  match rest with
  | [] => rfl
  | [second] =>
    rw [anyOf, BoolExpr.eval]
    cases first.eval data with
    | none => rfl
    | some value =>
      cases value with
      | true => rfl
      | false =>
        simp only [anyOf, boolConst, BoolExpr.eval]
        cases second.eval data with
        | none => rfl
        | some value => cases value <;> rfl
  | second :: third :: others => rfl

/-- Whether the argument is one of the values; a 32-bit argument with another upper half is unexpected. -/
def Arg.isIn (arg : Arg) (data : ArchSeccompData) (values : List (BitVec 64)) : Option Bool :=
  if (arg.size = 4 ∧ ¬Extends32 (data.arg arg.num_)) ∧ values ≠ [] then none
  else some (values.any fun value =>
    data.arg arg.num_ &&& arg.mask_ = if arg.size = 4 then (value.setWidth 32).setWidth 64 else value)

theorem eval_equalTo {arg : Arg} {value : BitVec 64} {cond : BoolExpr} (built : arg.equalTo value = .ok cond)
    (data : ArchSeccompData) : cond.eval data = arg.isIn data [value] := by
  unfold Arg.equalTo argEq Libchrome.Library.Checked.check at built
  split_ifs at built
  all_goals cases built
  all_goals simp [BoolExpr.eval, Arg.isIn, *]

theorem eval_equalTos {arg : Arg} {values : List (BitVec 64)} {conds : List BoolExpr}
    (built : values.mapM arg.equalTo = .ok conds) (data : ArchSeccompData) :
    (anyOf conds).eval data = arg.isIn data values := by
  induction values generalizing conds with
  | nil => cases built; simp [anyOf, boolConst, BoolExpr.eval, Arg.isIn]
  | cons value rest ih =>
    rw [List.mapM_cons] at built
    obtain ⟨cond, first, built⟩ := Library.Checked.exists_of_bind_eq_ok built
    obtain ⟨more, others, built⟩ := Library.Checked.exists_of_bind_eq_ok built
    cases built
    rw [eval_anyOf, eval_equalTo first, ih others]
    by_cases unexpected : arg.size = 4 ∧ ¬Extends32 (data.arg arg.num_)
    · simp [Arg.isIn, unexpected]
    · simp only [Arg.isIn, unexpected, false_and, if_false, List.any_cons, List.any_nil, Bool.or_false]
      split <;> simp_all

/-- A clause of a `Switch` decides when the argument is one of its values and no earlier clause decides. -/
def evalCases (arg : Arg) (data : ArchSeccompData) (panic otherwise : Option Verdict) :
    List (List (BitVec 64) × ResultExpr) → Option Verdict
  | [] => otherwise
  | (values, result) :: rest =>
      match arg.isIn data values with
      | some true => result.eval data panic
      | some false => evalCases arg data panic otherwise rest
      | none => panic

theorem eval_switch {arg : Arg} {clauses : List (List (BitVec 64) × ResultExpr)} {caser : Caser}
    (built : clauses.foldlM (fun caser clause => caser.cases clause.2 clause.1) (switch arg) = .ok caser)
    (data : ArchSeccompData) (panic : Option Verdict) (otherwise : ResultExpr) :
    (caser.default otherwise).eval data panic = evalCases arg data panic (otherwise.eval data panic) clauses := by
  rw [Caser.default, eval_else]
  have chain (before : Caser) (same : before.arg_ = arg)
      (chained : clauses.foldlM (fun caser clause => caser.cases clause.2 clause.1) before = .ok caser) :
      evalClauses data panic (otherwise.eval data panic) caser.elser_.clause_list_.reverse =
        evalClauses data panic (evalCases arg data panic (otherwise.eval data panic) clauses)
          before.elser_.clause_list_.reverse := by
    clear built
    induction clauses generalizing before with
    | nil => cases chained; rfl
    | cons clause rest ih =>
      obtain ⟨next, cased, chained⟩ := Library.Checked.exists_of_bind_eq_ok chained
      obtain ⟨conds, equal, cased⟩ := Library.Checked.exists_of_bind_eq_ok cased
      cases cased
      rw [ih _ (by exact same) chained]
      simp [Elser.elseIf, evalClauses_append, evalClauses, evalCases, eval_equalTos (same ▸ equal)]
  exact chain (switch arg) rfl built

/-- The second value of the first clause. -/
theorem eval_switch_second :
    ((⟨⟨0, 4, 0xff⟩, ⟨[(.or (.maskedEqual 0 4 0xff 1) (.maskedEqual 0 4 0xff 2), allow)]⟩⟩ : Caser).default kill).eval
      ⟨0, 0, 0, fun _ => 0x102⟩ none = some (.returns SECCOMP_RET_ALLOW) :=
  @eval_switch ⟨0, 4, 0xff⟩ [([1, 2], allow)] _ rfl _ none kill

end Dsl
end Libchrome.Bpf
