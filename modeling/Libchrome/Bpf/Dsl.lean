import Libchrome.Bpf.Filter
import Libchrome.Library.Checked

/-! The registry that numbers trap handlers. -/

namespace Libchrome.Bpf
open Library.Checked

/-- A trap handler: the compiler's own `ReturnErrno`, or the function at an address. -/
inductive TrapFnc where
  | ReturnErrno
  | handler (address : BitVec 64)
  deriving DecidableEq, Repr

structure TrapKey where
  fnc : TrapFnc
  aux : BitVec 64
  safe : Bool
  deriving DecidableEq, Repr

/-- A `SANDBOX_DIE` of the registry. -/
inductive TrapDeath where
  | unsafeTrapsDisabled
  | tooManyTraps
  deriving DecidableEq, Repr

/-- The registry. `trap_array_` holds the keys in the order of their ids, which start at 1. -/
structure Trap where
  trap_ids_ : List (TrapKey × BitVec 16)
  trap_array_ : List TrapKey
  has_unsafe_traps_ : Bool
  sandboxDebuggingAllowedByUser : Bool
  bounded : trap_array_.length ≤ 0xffff
  coherent : ∀ key id, trap_ids_.lookup key = some id →
    ∃ index, trap_array_[index]? = some key ∧ id = BitVec.ofNat 16 (index + 1)

namespace Trap

/-- The registry before any registration. -/
def fresh (sandboxDebuggingAllowedByUser : Bool) : Trap where
  trap_ids_ := []
  trap_array_ := []
  has_unsafe_traps_ := false
  sandboxDebuggingAllowedByUser := sandboxDebuggingAllowedByUser
  bounded := by decide
  coherent := by intro key id found; simp at found

/-- The registry after `key` got the next id. -/
def register (trap : Trap) (key : TrapKey) (room : trap.trap_array_.length < 0xffff) : Trap :=
  { trap with
    trap_ids_ := (key, BitVec.ofNat 16 (trap.trap_array_.length + 1)) :: trap.trap_ids_
    trap_array_ := trap.trap_array_ ++ [key]
    bounded := by
      simp only [List.length_append, List.length_cons, List.length_nil]
      omega
    coherent := by
      intro other id found
      rw [List.lookup_cons] at found
      split at found
      next same =>
        cases found
        exact ⟨trap.trap_array_.length, by rw [eq_of_beq same]; simp, rfl⟩
      next =>
        obtain ⟨index, member, rfl⟩ := trap.coherent other id found
        refine ⟨index, ?_, rfl⟩
        rw [List.getElem?_append_left (List.getElem?_eq_some_iff.1 member).1]
        exact member }

def add (trap : Trap) (fnc : TrapFnc) (aux : BitVec 64) (safe : Bool) :
    Except TrapDeath (BitVec 16 × Trap) := do
  check (safe ∨ trap.sandboxDebuggingAllowedByUser) .unsafeTrapsDisabled
  match trap.trap_ids_.lookup ⟨fnc, aux, safe⟩ with
  | some id => return (id, trap)
  | none =>
      if room : trap.trap_array_.length < 0xffff then
        return (BitVec.ofNat 16 (trap.trap_array_.length + 1), trap.register ⟨fnc, aux, safe⟩ room)
      else throw .tooManyTraps

def enableUnsafeTraps (trap : Trap) : Bool × Trap :=
  if trap.has_unsafe_traps_ then (true, trap)
  else if trap.sandboxDebuggingAllowedByUser then (true, { trap with has_unsafe_traps_ := true })
  else (false, trap)

/-- The handler that `SigSys` finds for a trap id. -/
def handlerOf (trap : Trap) (id : BitVec 16) : Option TrapKey :=
  if id = 0 then none else trap.trap_array_[id.toNat - 1]?

/-- Registrations are never withdrawn. -/
def Grows (trap later : Trap) : Prop := trap.trap_array_ <+: later.trap_array_

theorem Grows.refl (trap : Trap) : trap.Grows trap := List.prefix_rfl

theorem Grows.trans {first second third : Trap} (one : first.Grows second) (two : second.Grows third) :
    first.Grows third := List.IsPrefix.trans one two

theorem Grows.handlerOf {trap later : Trap} (grows : trap.Grows later) {id : BitVec 16} {key : TrapKey}
    (registered : trap.handlerOf id = some key) : later.handlerOf id = some key := by
  unfold Trap.handlerOf at registered ⊢
  split at registered
  next => cases registered
  next nonzero =>
    obtain ⟨more, same⟩ := grows
    rw [← same, if_neg nonzero, List.getElem?_append_left (List.getElem?_eq_some_iff.1 registered).1]
    exact registered

theorem handlerOf_index {trap : Trap} {index : Nat} {key : TrapKey}
    (member : trap.trap_array_[index]? = some key) :
    trap.handlerOf (BitVec.ofNat 16 (index + 1)) = some key := by
  have inside := (List.getElem?_eq_some_iff.1 member).1
  have bounded := trap.bounded
  have number : (BitVec.ofNat 16 (index + 1)).toNat = index + 1 := by
    rw [BitVec.toNat_ofNat, Nat.mod_eq_of_lt (by omega)]
  have nonzero : BitVec.ofNat 16 (index + 1) ≠ 0 := by
    intro zero
    rw [zero] at number
    exact absurd number.symm (Nat.succ_ne_zero index)
  rw [handlerOf, if_neg nonzero, number]
  exact member

/-- A returned id leads back to what was registered, for the rest of the registry's life. -/
theorem add_registers {trap later : Trap} {fnc : TrapFnc} {aux : BitVec 64} {safe : Bool} {id : BitVec 16}
    (added : trap.add fnc aux safe = .ok (id, later)) :
    trap.Grows later ∧ later.handlerOf id = some ⟨fnc, aux, safe⟩ := by
  unfold add check at added
  split at added
  next =>
    change (match trap.trap_ids_.lookup ⟨fnc, aux, safe⟩ with
      | some id => pure (id, trap)
      | none => _) = _ at added
    split at added
    next known found =>
      cases added
      obtain ⟨index, member, rfl⟩ := trap.coherent _ _ found
      exact ⟨.refl trap, handlerOf_index member⟩
    next =>
      split at added
      next room =>
        cases added
        exact ⟨List.prefix_append _ _, handlerOf_index (by simp [register])⟩
      next => cases added
  next => cases added

end Trap
/-! The policy language: boolean and result expressions, and the functions that build them. -/

/-- The `BoolExprImpl` classes. -/
inductive BoolExpr where
  | constBool (value_ : Bool)
  | maskedEqual (argno_ : Int) (width_ : Nat) (mask_ value_ : BitVec 64)
  | negate (cond_ : BoolExpr)
  | and (lhs_ rhs_ : BoolExpr)
  | or (lhs_ rhs_ : BoolExpr)
  deriving DecidableEq, Repr

/-- `IsAction`. -/
def isAction (ret action : BitVec 32) : Bool := ret &&& SECCOMP_RET_ACTION = action

/-- The return values the language can express. -/
def IsReturnValue (ret : BitVec 32) : Prop :=
  isAction ret SECCOMP_RET_ALLOW ∨ isAction ret SECCOMP_RET_ERRNO ∨
    isAction ret SECCOMP_RET_KILL ∨ isAction ret SECCOMP_RET_TRACE

/-- The `ResultExprImpl` classes. Only the functions below make a return value, hence its proof. -/
inductive ResultExpr where
  | returnResult (ret_ : BitVec 32) (legal : IsReturnValue ret_)
  | trapResult (func_ : TrapFnc) (arg_ : BitVec 64) (safe_ : Bool)
  | ifThenResult (cond_ : BoolExpr) (then_result_ else_result_ : ResultExpr)

namespace ResultExpr

def hasUnsafeTraps : ResultExpr → Bool
  | returnResult _ _ => false
  | trapResult _ _ safe_ => safe_ = false
  | ifThenResult _ then_result_ else_result_ => then_result_.hasUnsafeTraps || else_result_.hasUnsafeTraps

def isAllow : ResultExpr → Bool
  | returnResult ret_ _ => isAction ret_ SECCOMP_RET_ALLOW
  | _ => false

def isDeny : ResultExpr → Bool
  | returnResult ret_ _ => isAction ret_ SECCOMP_RET_ERRNO || isAction ret_ SECCOMP_RET_KILL
  | trapResult _ _ _ => true
  | ifThenResult _ _ _ => false

end ResultExpr

namespace Dsl

/-- A CHECK of the language's own functions. -/
inductive Check where
  | errnoOutOfRange
  | unimplementedDefaultMask
  | argumentSize
  deriving DecidableEq, Repr

theorem action_complement (value : BitVec 32) :
    (value &&& SECCOMP_RET_DATA) ||| (value &&& SECCOMP_RET_ACTION) = value := by
  rw [← BitVec.and_or_distrib_left, show SECCOMP_RET_DATA ||| SECCOMP_RET_ACTION = BitVec.allOnes 32 from rfl,
    BitVec.and_allOnes]

theorem action_setWidth (aux : BitVec 16) : aux.setWidth 32 &&& SECCOMP_RET_ACTION = 0#32 := by
  have mask : ∀ i : Fin 16, SECCOMP_RET_ACTION.getLsbD i = false := by decide
  ext i inside
  by_cases low : i < 16
  · have zero := mask ⟨i, low⟩
    simp only [← BitVec.getLsbD_eq_getElem, BitVec.getLsbD_and] at zero ⊢
    simp only [zero, Bool.and_false, BitVec.getLsbD_zero]
  · simp only [← BitVec.getLsbD_eq_getElem, BitVec.getLsbD_and, BitVec.getLsbD_setWidth,
      BitVec.getLsbD_of_ge aux i (by omega), Bool.and_false, Bool.false_and, BitVec.getLsbD_zero]

theorem add_eq_or (base : BitVec 32) (aux : BitVec 16) (aligned : base &&& SECCOMP_RET_DATA = 0#32) :
    base &&& SECCOMP_RET_ACTION = base ∧ base + aux.setWidth 32 = base ||| aux.setWidth 32 := by
  have upper : base &&& SECCOMP_RET_ACTION = base := by
    simpa only [aligned, BitVec.zero_or] using action_complement base
  have disjoint : base &&& aux.setWidth 32 = 0#32 := by
    rw [← upper, BitVec.and_assoc, BitVec.and_comm SECCOMP_RET_ACTION, action_setWidth, BitVec.and_zero]
  exact ⟨upper, BitVec.add_eq_or_of_and_eq_zero _ _ disjoint⟩

theorem action_add (base : BitVec 32) (aux : BitVec 16) (aligned : base &&& SECCOMP_RET_DATA = 0#32) :
    (base + aux.setWidth 32) &&& SECCOMP_RET_ACTION = base := by
  have ⟨upper, sum⟩ := add_eq_or base aux aligned
  rw [sum, BitVec.and_or_distrib_right, upper, action_setWidth, BitVec.or_zero]

theorem data_add (base : BitVec 32) (aux : BitVec 16) (aligned : base &&& SECCOMP_RET_DATA = 0#32) :
    (base + aux.setWidth 32) &&& SECCOMP_RET_DATA = aux.setWidth 32 := by
  have lower : aux.setWidth 32 &&& SECCOMP_RET_DATA = aux.setWidth 32 := by
    simpa only [action_setWidth, BitVec.or_zero] using action_complement (aux.setWidth 32)
  rw [(add_eq_or base aux aligned).2, BitVec.and_or_distrib_right, aligned, lower, BitVec.zero_or]

def allow : ResultExpr := .returnResult SECCOMP_RET_ALLOW (.inl rfl)

def kill : ResultExpr := .returnResult SECCOMP_RET_KILL (.inr (.inr (.inl rfl)))

/-- `Error`, for an `err` between `ERR_MIN_ERRNO` and `ERR_MAX_ERRNO`. -/
def error (err : Int) : Except Check ResultExpr := do
  check (0 ≤ err ∧ err ≤ 4095) .errnoOutOfRange
  return .returnResult (SECCOMP_RET_ERRNO + (BitVec.ofInt 16 err).setWidth 32)
    (.inr (.inl (decide_eq_true (action_add _ _ rfl))))

def trace (aux : BitVec 16) : ResultExpr :=
  .returnResult (SECCOMP_RET_TRACE + aux.setWidth 32)
    (.inr (.inr (.inr (decide_eq_true (action_add _ _ rfl)))))

def trap (trap_func : TrapFnc) (aux : BitVec 64) : ResultExpr := .trapResult trap_func aux true

def unsafeTrap (trap_func : TrapFnc) (aux : BitVec 64) : ResultExpr := .trapResult trap_func aux false

def boolConst (value : Bool) : BoolExpr := .constBool value

def not (cond : BoolExpr) : BoolExpr := .negate cond

/-- The overloads of `AllOf`: the two-argument one wins over the variadic one. -/
def allOf : List BoolExpr → BoolExpr
  | [] => boolConst true
  | [lhs, rhs] => .and lhs rhs
  | first :: rest => .and first (allOf rest)

def anyOf : List BoolExpr → BoolExpr
  | [] => boolConst false
  | [lhs, rhs] => .or lhs rhs
  | first :: rest => .or first (anyOf rest)

def defaultMask (size : Nat) : Except Check (BitVec 64) :=
  match size with
  | 4 => .ok 0xffffffff
  | 8 => .ok (BitVec.allOnes 64)
  | _ => .error .unimplementedDefaultMask

def argEq (num : Int) (size : Nat) (mask val : BitVec 64) : Except Check BoolExpr := do
  check (size = 4 ∨ size = 8) .argumentSize
  return .maskedEqual num size mask val

/-- `Arg<T>`, with `size` standing for `sizeof(T)`. -/
structure Arg where
  num_ : Int
  size : Nat
  mask_ : BitVec 64

def Arg.new (num : Int) (size : Nat) : Except Check Arg := do
  return ⟨num, size, ← defaultMask size⟩

/-- `operator&`. -/
def Arg.masked (lhs : Arg) (rhs : BitVec 64) : Arg := { lhs with mask_ := lhs.mask_ &&& rhs }

/-- `val` holds the comparison value sign-extended to 64 bits; 4-byte arguments drop the extension. -/
def Arg.equalTo (arg : Arg) (val : BitVec 64) : Except Check BoolExpr :=
  if arg.size = 4 then argEq arg.num_ arg.size arg.mask_ ((val.setWidth 32).setWidth 64)
  else argEq arg.num_ arg.size arg.mask_ val

/-- The clauses of a conditional in progress, the latest first. -/
structure Elser where
  clause_list_ : List (BoolExpr × ResultExpr)

def Elser.elseIf (elser : Elser) (cond : BoolExpr) (then_result : ResultExpr) : Elser :=
  ⟨(cond, then_result) :: elser.clause_list_⟩

def ifThen (cond : BoolExpr) (then_result : ResultExpr) : Elser := (Elser.mk []).elseIf cond then_result

def Elser.else_ (elser : Elser) (else_result : ResultExpr) : ResultExpr :=
  elser.clause_list_.foldl (fun expr clause => .ifThenResult clause.1 clause.2 expr) else_result

structure Caser where
  arg_ : Arg
  elser_ : Elser

def switch (arg : Arg) : Caser := ⟨arg, ⟨[]⟩⟩

/-- `CasesImpl`; `Case` is the call with one value. -/
def Caser.cases (caser : Caser) (result : ResultExpr) (values : List (BitVec 64)) : Except Check Caser := do
  return ⟨caser.arg_, caser.elser_.elseIf (anyOf (← values.mapM caser.arg_.equalTo)) result⟩

def Caser.default (caser : Caser) (result : ResultExpr) : ResultExpr := caser.elser_.else_ result

end Dsl
end Libchrome.Bpf
