import Libchrome.Bpf.DispatchCorrect

/-! The iteration over a set of system call numbers, on every architecture, and the
ranges that `FindRanges` cuts the numbers into. -/

namespace Libchrome.Bpf
open Library.Checked Library.Tiling

/-- The architectures of `linux_syscall_ranges.h`; `__NR_Linux_syscalls` is the kernel's. -/
inductive Arch where
  | x86_64
  | i386
  | arm
  | mips (__NR_Linux_syscalls : Fin 0x7ffff000)
  | aarch64

/-- `kValidSyscallRanges`. -/
def Arch.validSyscallRanges : Arch → List SyscallRange
  | .x86_64 => [⟨0, 1024⟩]
  | .i386 => [⟨0, 1024⟩]
  | .arm => [⟨0, 1024⟩, ⟨0xf0000, 0xf0000 + 16⟩, ⟨0xf0000 + 0xfff0, 0xf0000 + 0xfff0 + 4⟩]
  | .mips __NR_Linux_syscalls => [⟨4000, 4000 + BitVec.ofNat 32 __NR_Linux_syscalls⟩]
  | .aarch64 => [⟨0, 279⟩]

/-- What the tables have in common: the ranges ascend, with a gap after each. -/
structure Spaced (ranges : List SyscallRange) : Prop where
  gaps : ranges.Pairwise fun range later => range.last.toNat + 1 < later.first.toNat
  proper : ∀ range ∈ ranges, range.first.toNat ≤ range.last.toNat ∧ range.last.toNat < 0x7fffffff

theorem Arch.spaced (arch : Arch) : Spaced arch.validSyscallRanges := by
  cases arch with
  | x86_64 => exact ⟨by decide, by decide⟩
  | i386 => exact ⟨by decide, by decide⟩
  | arm => exact ⟨by decide, by decide⟩
  | mips count =>
    have small := count.isLt
    refine ⟨List.pairwise_singleton _ _, fun range member => ?_⟩
    rw [List.mem_singleton.1 member]
    have last : (4000 + BitVec.ofNat 32 count).toNat = 4000 + count := by
      have base : (4000 : BitVec 32).toNat = 4000 := rfl
      rw [BitVec.toNat_add, BitVec.toNat_ofNat, base]
      omega
    change 4000 ≤ (4000 + BitVec.ofNat 32 count).toNat ∧ (4000 + BitVec.ofNat 32 count).toNat < _
    omega
  | aarch64 => exact ⟨by decide, by decide⟩

namespace SyscallSet
variable (ranges : List SyscallRange)

/-- `IsValid`. -/
def isValidIn (num : BitVec 32) : Bool := ranges.any fun range => num ≥ range.first && num ≤ range.last

/-- `NextSyscall`. -/
def nextSyscallIn (set : SyscallSet) (num_ : BitVec 32) : BitVec 32 :=
  let want_valid := set ≠ .INVALID_ONLY
  let want_invalid := set ≠ .VALID_ONLY
  match Iterator.nextInRanges want_valid want_invalid num_ ranges with
  | some next => next
  | none =>
      if want_invalid ∧ num_ < 0x7fffffff then 0x7fffffff
      else if want_invalid ∧ num_ < 0x80000000 then 0x80000000
      else if want_invalid ∧ num_ < 0xffffffff then 0xffffffff
      else 0

/-- `operator++`. -/
def advanceIn (iterator : Iterator) : Iterator :=
  let num := nextSyscallIn ranges iterator.set_ iterator.num_
  { iterator with num_ := num, done_ := iterator.done_ || num = 0 }

def beginIn (set : SyscallSet) : Iterator :=
  if set = (if isValidIn ranges 0 then .INVALID_ONLY else .VALID_ONLY) then advanceIn ranges ⟨set, false, 0⟩
  else ⟨set, false, 0⟩

/-- The numbers a range-based loop visits from `iterator` on, at most `fuel` of them. -/
def elementsFromIn : Nat → Iterator → List (BitVec 32)
  | 0, _ => []
  | fuel + 1, iterator =>
      if iterator = endIterator iterator.set_ then []
      else iterator.num_ :: elementsFromIn fuel (advanceIn ranges iterator)

/-- The numbers of a set in iteration order. There are no more than 2^32 of them. -/
def elementsIn (set : SyscallSet) : List (BitVec 32) := elementsFromIn ranges (2 ^ 32) (beginIn ranges set)

theorem elements_eq (set : SyscallSet) : set.elements = elementsIn Arch.x86_64.validSyscallRanges set := by
  have same (fuel : Nat) (iterator : Iterator) :
      elementsFrom fuel iterator = elementsFromIn Arch.x86_64.validSyscallRanges fuel iterator := by
    induction fuel generalizing iterator with
    | zero => rfl
    | succ fuel ih => rw [elementsFrom, elementsFromIn, ih]; rfl
  exact same _ _

/-! ### The numbers of a set -/

/-- What a flavour wants of the numbers in and next to a range. -/
def Wants (want_valid want_invalid : Bool) (num : Nat) (range : SyscallRange) : Prop :=
  want_valid ∧ range.first.toNat ≤ num ∧ num ≤ range.last.toNat ∨
    want_invalid ∧ (num + 1 = range.first.toNat ∨ num = range.last.toNat + 1)

/-- `found` is the least wanted number above `num`. -/
def Finds (ranges : List SyscallRange) (want_valid want_invalid : Bool) (num : BitVec 32) : Option (BitVec 32) → Prop
  | some found => num.toNat < found.toNat ∧ (∃ range ∈ ranges, Wants want_valid want_invalid found.toNat range) ∧
      ∀ other, num.toNat < other → other < found.toNat → ∀ range ∈ ranges, ¬Wants want_valid want_invalid other range
  | none => ∀ other, num.toNat < other → ∀ range ∈ ranges, ¬Wants want_valid want_invalid other range

theorem finds_nextInRanges {ranges : List SyscallRange} (spaced : Spaced ranges) (want_valid want_invalid : Bool)
    (num : BitVec 32) :
    Finds ranges want_valid want_invalid num (Iterator.nextInRanges want_valid want_invalid num ranges) := by
  induction ranges with
  | nil => exact fun _ _ _ member => absurd member List.not_mem_nil
  | cons range rest ih =>
    have ⟨ahead, gaps⟩ := List.pairwise_cons.1 spaced.gaps
    have ⟨ordered, small⟩ := spaced.proper range List.mem_cons_self
    have ih := ih ⟨gaps, fun later member => spaced.proper later (List.mem_cons_of_mem _ member)⟩
    have found {next : BitVec 32} (after : num.toNat < next.toNat) (near : next.toNat ≤ range.last.toNat + 1)
        (wants : Wants want_valid want_invalid next.toNat range)
        (least : ∀ other, num.toNat < other → other < next.toNat → ¬Wants want_valid want_invalid other range) :
        Finds (range :: rest) want_valid want_invalid num (some next) := by
      refine ⟨after, ⟨range, List.mem_cons_self, wants⟩, fun other above below later member => ?_⟩
      rcases List.mem_cons.1 member with same | member
      · exact same ▸ least other above below
      · have gap := ahead later member
        have proper := spaced.proper later (List.mem_cons_of_mem _ member)
        unfold Wants
        omega
    have before (positive : range.first > 0) : (range.first - 1).toNat = range.first.toNat - 1 := by bv_omega
    have next : (range.last + 1).toNat = range.last.toNat + 1 := by bv_omega
    unfold Iterator.nextInRanges
    simp only [BitVec.lt_def, BitVec.le_def, gt_iff_lt] at before ⊢
    split_ifs with skipped first inside after
    · have edge := before skipped.2.1
      apply found <;> grind [Wants]
    · apply found <;> grind [Wants]
    · have succ : (num + 1).toNat = num.toNat + 1 := by bv_omega
      apply found <;> grind [Wants]
    · apply found <;> grind [Wants]
    · have passed (other : ℕ) (above : num.toNat < other) : ¬Wants want_valid want_invalid other range := by
        unfold Wants
        grind
      cases result : Iterator.nextInRanges want_valid want_invalid num rest with
      | none =>
        rw [result] at ih
        exact fun other above => List.forall_mem_cons.2 ⟨passed other above, ih other above⟩
      | some next =>
        rw [result] at ih
        obtain ⟨after, ⟨later, member, wants⟩, least⟩ := ih
        exact ⟨after, ⟨later, List.mem_cons_of_mem _ member, wants⟩, fun other above below =>
          List.forall_mem_cons.2 ⟨passed other above, least other above below⟩⟩

/-- The numbers of `ALL`: the valid ones, those next to a range, zero and the bounds of signed numbers. -/
def Sample (num : BitVec 32) : Prop :=
  num = 0 ∨ (∃ range ∈ ranges, Wants true true num.toNat range) ∨
    num.toNat = 0x7fffffff ∨ num.toNat = 0x80000000 ∨ num.toNat = 0xffffffff

def InSet (set : SyscallSet) (num : BitVec 32) : Prop :=
  Sample ranges num ∧ (set = .VALID_ONLY → isValidIn ranges num = true) ∧
    (set = .INVALID_ONLY → ¬isValidIn ranges num = true)

variable {ranges} (spaced : Spaced ranges) {set : SyscallSet} {num other : BitVec 32}

theorem isValidIn_iff :
    isValidIn ranges num = true ↔ ∃ range ∈ ranges, range.first.toNat ≤ num.toNat ∧ num.toNat ≤ range.last.toNat := by
  simp only [isValidIn, List.any_eq_true, Bool.and_eq_true, decide_eq_true_eq, ge_iff_le, BitVec.le_def]

theorem sample_of_valid (valid : isValidIn ranges num = true) : Sample ranges num := by
  obtain ⟨range, member, inside⟩ := isValidIn_iff.1 valid
  exact .inr (.inl ⟨range, member, .inl ⟨rfl, inside⟩⟩)

theorem sample_of_change (changes : num = 0 ∨ isValidIn ranges (num - 1) ≠ isValidIn ranges num) :
    Sample ranges num := by
  by_cases zero : num = 0
  · exact .inl zero
  · have before : (num - 1).toNat = num.toNat - 1 := by bv_omega
    have changes := changes.resolve_left zero
    cases valid : isValidIn ranges num with
    | true => exact sample_of_valid valid
    | false =>
      rw [valid, ne_eq, Bool.not_eq_false] at changes
      obtain ⟨range, member, inside⟩ := isValidIn_iff.1 changes
      have outside : ¬(range.first.toNat ≤ num.toNat ∧ num.toNat ≤ range.last.toNat) := fun inside =>
        Bool.eq_false_iff.1 valid (isValidIn_iff.2 ⟨range, member, inside⟩)
      exact .inr (.inl ⟨range, member, .inr ⟨rfl, by bv_omega⟩⟩)

include spaced

theorem not_valid_of_edge {range : SyscallRange} (member : range ∈ ranges)
    (edge : num.toNat + 1 = range.first.toNat ∨ num.toNat = range.last.toNat + 1) : ¬isValidIn ranges num = true := by
  rw [isValidIn_iff]
  intro valid
  obtain ⟨other, otherMember, low, high⟩ := valid
  have proper := spaced.proper range member
  have apart : range.last.toNat + 1 < other.first.toNat ∨ other.last.toNat + 1 < range.first.toNat ∨ range = other :=
    List.Pairwise.forall_of_forall_of_flip (R := fun one two : SyscallRange =>
        one.last.toNat + 1 < two.first.toNat ∨ two.last.toNat + 1 < one.first.toNat ∨ one = two)
      (fun _ _ => .inr (.inr rfl)) (spaced.gaps.imp .inl) (spaced.gaps.imp fun gap => .inr (.inl gap)) member
      otherMember
  rcases apart with _ | _ | rfl <;> omega

theorem not_valid_of_large (large : 0x7fffffff ≤ num.toNat) : ¬isValidIn ranges num = true := by
  rw [isValidIn_iff]
  intro valid
  obtain ⟨range, member, _, high⟩ := valid
  have proper := spaced.proper range member
  omega

variable (set)

theorem inSet_iff (positive : 0 < num.toNat) :
    InSet ranges set num ↔
      (∃ range ∈ ranges, Wants (set ≠ .INVALID_ONLY) (set ≠ .VALID_ONLY) num.toNat range) ∨
        set ≠ .VALID_ONLY ∧ (num.toNat = 0x7fffffff ∨ num.toNat = 0x80000000 ∨ num.toNat = 0xffffffff) := by
  have edge (range : SyscallRange) (member : range ∈ ranges) := @not_valid_of_edge ranges spaced num range member
  have large := @not_valid_of_large ranges spaced num
  have nonzero : num ≠ 0 := by
    intro zero
    rw [zero] at positive
    exact absurd positive (by decide)
  have valid := @isValidIn_iff ranges num
  cases set <;> simp only [InSet, Sample, Wants] <;> grind

/-- `NextSyscall` returns the next number of the set, or 0 after the last. -/
theorem nextSyscallIn_least (num : BitVec 32) :
    nextSyscallIn ranges set num = 0 ∧ (∀ other, num < other → ¬InSet ranges set other) ∨
      num < nextSyscallIn ranges set num ∧ InSet ranges set (nextSyscallIn ranges set num) ∧
        ∀ other, num < other → other < nextSyscallIn ranges set num → ¬InSet ranges set other := by
  have finds := finds_nextInRanges spaced (set ≠ .INVALID_ONLY) (set ≠ .VALID_ONLY) num
  have member (other : BitVec 32) (above : num.toNat < other.toNat) := inSet_iff spaced set (Nat.zero_lt_of_lt above)
  simp only [nextSyscallIn, BitVec.lt_def]
  cases result : Iterator.nextInRanges (set ≠ .INVALID_ONLY) (set ≠ .VALID_ONLY) num ranges with
  | some next =>
    rw [result] at finds
    obtain ⟨after, wants, least⟩ := finds
    refine .inr ⟨after, (member next after).2 (.inl wants), fun other above (below : _ < next.toNat) inSet => ?_⟩
    obtain ⟨range, inside, wanted⟩ := wants
    have proper := spaced.proper range inside
    rcases (member other above).1 inSet with ⟨range, inside, wanted⟩ | ⟨_, bounds⟩
    · exact least other.toNat above below range inside wanted
    · simp only [Wants] at wanted
      omega
  | none =>
    rw [result] at finds
    have bounds (other : BitVec 32) (above : num.toNat < other.toNat) : InSet ranges set other ↔
        set ≠ .VALID_ONLY ∧ (other.toNat = 0x7fffffff ∨ other.toNat = 0x80000000 ∨ other.toNat = 0xffffffff) := by
      rw [member other above, or_iff_right]
      exact fun ⟨range, inside, wanted⟩ => finds other.toNat above range inside wanted
    have signed : (0x7fffffff : BitVec 32).toNat = 0x7fffffff := rfl
    have unsigned : (0x80000000 : BitVec 32).toNat = 0x80000000 := rfl
    have last : (0xffffffff : BitVec 32).toNat = 0xffffffff := rfl
    dsimp only
    split_ifs with one two three
    · exact .inr ⟨one.2, (bounds _ one.2).2 ⟨one.1, .inl rfl⟩, by grind⟩
    · exact .inr ⟨two.2, (bounds _ two.2).2 ⟨two.1, .inr (.inl rfl)⟩, by grind⟩
    · exact .inr ⟨three.2, (bounds _ three.2).2 ⟨three.1, .inr (.inr rfl)⟩, by grind⟩
    · exact .inl ⟨rfl, by grind⟩

omit spaced in
theorem elementsFromIn_succ (fuel : ℕ) :
    elementsFromIn ranges (fuel + 1) ⟨set, false, num⟩ =
      num :: elementsFromIn ranges fuel (advanceIn ranges ⟨set, false, num⟩) :=
  if_neg (by simp [endIterator])

theorem elementsFromIn_advanceIn (fuel : ℕ) (num : BitVec 32) (enough : 2 ^ 32 ≤ fuel + num.toNat + 1) :
    (elementsFromIn ranges fuel (advanceIn ranges ⟨set, false, num⟩)).Pairwise (· < ·) ∧
      (∀ other, other ∈ elementsFromIn ranges fuel (advanceIn ranges ⟨set, false, num⟩) ↔
        num < other ∧ InSet ranges set other) ∧
      (advanceIn ranges)^[(elementsFromIn ranges fuel (advanceIn ranges ⟨set, false, num⟩)).length]
        (advanceIn ranges ⟨set, false, num⟩) = endIterator set := by
  induction fuel generalizing num with
  | zero =>
    have last (other : BitVec 32) : ¬num < other := by bv_omega
    rcases nextSyscallIn_least spaced set num with ⟨zero, _⟩ | ⟨after, _⟩
    · have stop : advanceIn ranges ⟨set, false, num⟩ = endIterator set := by simp [advanceIn, zero, endIterator]
      exact ⟨.nil, fun other => by simp [elementsFromIn, last], stop⟩
    · exact absurd after (last _)
  | succ fuel ih =>
    rcases nextSyscallIn_least spaced set num with ⟨zero, none⟩ | ⟨after, inSet, least⟩
    · have stop : advanceIn ranges ⟨set, false, num⟩ = endIterator set := by simp [advanceIn, zero, endIterator]
      have empty : elementsFromIn ranges (fuel + 1) (endIterator set) = [] := if_pos rfl
      rw [stop, empty]
      refine ⟨.nil, fun other => ?_, rfl⟩
      simpa using none other
    · have go : advanceIn ranges ⟨set, false, num⟩ = ⟨set, false, nextSyscallIn ranges set num⟩ := by
        have nonzero : nextSyscallIn ranges set num ≠ 0 := by
          intro zero
          rw [zero] at after
          bv_omega
        rw [advanceIn, Bool.false_or, decide_eq_false nonzero]
      rw [go]
      generalize nextSyscallIn ranges set num = next at *
      have ⟨sorted, members, stops⟩ := ih next (by bv_omega)
      rw [elementsFromIn_succ]
      refine ⟨List.pairwise_cons.2 ⟨fun other member => ((members other).1 member).1, sorted⟩, fun other => ?_, ?_⟩
      · rw [List.mem_cons, members]
        grind
      · rw [List.length_cons, Function.iterate_succ_apply]
        exact stops

/-- The loop visits the numbers of its set in ascending order, and ends. -/
theorem elementsIn_spec :
    (elementsIn ranges set).Pairwise (· < ·) ∧ (∀ num, num ∈ elementsIn ranges set ↔ InSet ranges set num) ∧
      (advanceIn ranges)^[(elementsIn ranges set).length] (beginIn ranges set) = endIterator set := by
  have zero (other : BitVec 32) (nonzero : other ≠ 0) : 0 < other := by bv_omega
  obtain ⟨fuel, large⟩ : ∃ fuel, 2 ^ 32 = fuel + 1 := ⟨2 ^ 32 - 1, rfl⟩
  by_cases skips : set = (if isValidIn ranges 0 then .INVALID_ONLY else .VALID_ONLY)
  · have ⟨sorted, members, stops⟩ := elementsFromIn_advanceIn spaced set (2 ^ 32) 0 (by decide)
    have start : beginIn ranges set = advanceIn ranges ⟨set, false, 0⟩ := if_pos skips
    rw [elementsIn, start]
    refine ⟨sorted, fun num => (members num).trans ⟨And.right, fun inSet => ⟨zero num ?_, inSet⟩⟩, stops⟩
    rintro rfl
    unfold InSet at inSet
    split at skips <;> simp_all
  · have ⟨sorted, members, stops⟩ := elementsFromIn_advanceIn spaced set fuel 0 (by simp; omega)
    have start : beginIn ranges set = ⟨set, false, 0⟩ := if_neg skips
    rw [elementsIn, start, large, elementsFromIn_succ]
    refine ⟨List.pairwise_cons.2 ⟨fun other member => ((members other).1 member).1, sorted⟩, fun num => ?_, ?_⟩
    · have first : InSet ranges set 0 := by
        refine ⟨.inl rfl, ?_, ?_⟩ <;> rintro rfl <;> simp_all
      rw [List.mem_cons, members]
      grind
    · rw [List.length_cons, Function.iterate_succ_apply]
      exact stops

end SyscallSet
/-! ### Code that was emitted before -/

namespace CodeGen

theorem ensures_any {ε α : Type} (result : Except ε α) : Ensures (fun _ => True) result (fun _ => True) := by
  cases result <;> exact trivial

theorem append_memos (gen : CodeGen) (code : BitVec 16) (k : BitVec 32) (jt jf : Nat) :
    Ensures (fun _ => True) (gen.append code k jt jf) (·.2.memos_ = gen.memos_) :=
  (ensures_any _).bind fun _ _ => (ensures_any _).bind fun _ _ => (ensures_any _).bind fun _ _ => rfl

theorem withinRange_memos (gen : CodeGen) (target range : Nat) :
    Ensures (fun _ => True) (gen.withinRange target range) (·.2.memos_ = gen.memos_) := by
  unfold withinRange
  apply (ensures_any _).bind
  intro distance _
  dsimp only
  split
  next => rfl
  next =>
    split
    next => exact trivial
    next equivalent _ =>
      apply (ensures_any _).bind
      intro distance _
      split
      next => rfl
      next =>
        apply (ensures_any _).bind
        intro _ _
        apply (append_memos gen _ _ _ _).bind
        intro result same
        exact same

theorem appendInstruction_memos (gen : CodeGen) (code : BitVec 16) (k : BitVec 32) (jt jf : Nat) :
    Ensures (fun _ => True) (gen.appendInstruction code k jt jf) (·.2.memos_ = gen.memos_) := by
  unfold appendInstruction
  split
  next =>
    apply (ensures_any _).bind
    intro _ _
    apply (withinRange_memos gen _ _).bind
    intro near same
    apply (withinRange_memos near.2 _ _).bind
    intro near' same'
    rw [← same, ← same']
    exact (ensures_any _).bind fun _ _ => (ensures_any _).bind fun _ _ => append_memos _ _ _ _ _
  next =>
    apply (ensures_any _).bind
    intro _ _
    split
    next => exact (ensures_any _).bind fun _ _ => append_memos _ _ _ _ _
    next =>
      apply (withinRange_memos gen _ _).bind
      intro near same
      rw [← same]
      exact (ensures_any _).bind fun _ _ => (ensures_any _).bind fun _ _ => append_memos _ _ _ _ _

end CodeGen

/-- `later` remembers what `state` does. -/
structure CompileState.Keeps (state later : CompileState) : Prop where
  memos : ∀ key node, state.gen_.memos_.lookup key = some node → later.gen_.memos_.lookup key = some node
  traps : ∀ key id, state.registry_.trap_ids_.lookup key = some id → later.registry_.trap_ids_.lookup key = some id
  allowed : later.registry_.sandboxDebuggingAllowedByUser = state.registry_.sandboxDebuggingAllowedByUser

theorem CompileState.Keeps.refl (state : CompileState) : state.Keeps state :=
  ⟨fun _ _ same => same, fun _ _ same => same, rfl⟩

theorem CompileState.Keeps.trans {first second third : CompileState} (one : first.Keeps second)
    (two : second.Keeps third) : first.Keeps third :=
  ⟨fun key node found => two.memos key node (one.memos key node found),
    fun key id found => two.traps key id (one.traps key id found), two.allowed.trans one.allowed⟩

/-- Emitting the same code again emits nothing, and returns the same. -/
def Folds {α : Type} (emit : Emit α) : Prop :=
  ∀ state value later, emit state = .ok (value, later) →
    state.Keeps later ∧ ∀ further, later.Keeps further → emit further = .ok (value, further)

theorem Folds.pure {α : Type} (value : α) : Folds (Pure.pure value : Emit α) := by
  intro state value' later same
  cases same
  exact ⟨.refl _, fun _ _ => rfl⟩

theorem Folds.bind {α β : Type} {emit : Emit α} {next : α → Emit β} (first : Folds emit)
    (rest : ∀ value, Folds (next value)) : Folds (emit >>= next) := by
  intro state value later same
  obtain ⟨middle, started, finished⟩ := exists_of_bind_eq_ok same
  have ⟨kept, again⟩ := first _ _ _ started
  have ⟨kept', again'⟩ := rest _ _ _ _ finished
  refine ⟨kept.trans kept', fun further keeps => ?_⟩
  change (emit further >>= fun result => next result.1 result.2) = _
  rw [again further (kept'.trans keeps)]
  exact again' further keeps

theorem folds_throw {α : Type} (failure : CompileCheck) : Folds (throw failure : Emit α) := by
  intro state value later same
  cases same

theorem folds_require (condition : Prop) [Decidable condition] (failure : CompileCheck) :
    Folds (PolicyCompiler.require condition failure) := by
  intro state value later same
  obtain ⟨_, holds, same⟩ := exists_of_bind_eq_ok same
  cases same
  refine ⟨.refl _, fun further _ => ?_⟩
  rw [PolicyCompiler.require, holds]
  rfl

theorem folds_makeInstruction (code : BitVec 16) (k : BitVec 32) (jt jf : Nat) :
    Folds (PolicyCompiler.makeInstruction code k jt jf) := by
  intro state node later same
  unfold PolicyCompiler.makeInstruction at same
  split at same
  next made gen emitted =>
    cases same
    suffices kept : state.Keeps { state with gen_ := gen } ∧ gen.memos_.lookup ⟨code, k, jt, jf⟩ = some node by
      refine ⟨kept.1, fun further keeps => ?_⟩
      simp only [PolicyCompiler.makeInstruction, CodeGen.makeInstruction, keeps.memos _ _ kept.2]
      rfl
    unfold CodeGen.makeInstruction at emitted
    split at emitted
    next found =>
      cases emitted
      exact ⟨.refl _, found⟩
    next new =>
      obtain ⟨appended, done, emitted⟩ := exists_of_bind_eq_ok emitted
      have memos := (CodeGen.appendInstruction_memos _ _ _ _ _).of_ok done
      cases emitted
      refine ⟨⟨fun key node found => ?_, fun _ _ same => same, rfl⟩, List.lookup_cons_self⟩
      dsimp only
      rw [memos, List.lookup_cons, beq_false_of_ne]
      · exact found
      · rintro rfl
        rw [new] at found
        cases found
  next => cases same

theorem folds_trap (fnc : TrapFnc) (aux : BitVec 64) (safe : Bool) : Folds (PolicyCompiler.trap fnc aux safe) := by
  intro state node later same
  unfold PolicyCompiler.trap at same
  split at same
  next trap_id registry added =>
    suffices kept : state.Keeps { state with registry_ := registry } ∧
        ∀ further : CompileState, CompileState.Keeps { state with registry_ := registry } further →
          further.registry_.add fnc aux safe = .ok (trap_id, further.registry_) by
      have ⟨kept', again⟩ := folds_makeInstruction _ _ _ _ _ _ _ same
      refine ⟨kept.1.trans kept', fun further keeps => ?_⟩
      rw [PolicyCompiler.trap, kept.2 further (kept'.trans keeps)]
      exact again further keeps
    unfold Trap.add at added
    obtain ⟨_, permitted, added⟩ := exists_of_bind_eq_ok added
    have lookup {further : CompileState} (keeps : CompileState.Keeps { state with registry_ := registry } further)
        (found : registry.trap_ids_.lookup ⟨fnc, aux, safe⟩ = some trap_id)
        (allowed : registry.sandboxDebuggingAllowedByUser = state.registry_.sandboxDebuggingAllowedByUser) :
        further.registry_.add fnc aux safe = .ok (trap_id, further.registry_) := by
      rw [Trap.add, keeps.allowed, allowed, permitted, ok_bind, keeps.traps _ _ found]
      rfl
    split at added
    next found =>
      cases added
      exact ⟨.refl _, fun further keeps => lookup keeps found rfl⟩
    next new =>
      split at added
      next room =>
        cases added
        have found : (state.registry_.register ⟨fnc, aux, safe⟩ room).trap_ids_.lookup ⟨fnc, aux, safe⟩ = some _ :=
          List.lookup_cons_self
        refine ⟨⟨fun _ _ same => same, fun key id known => ?_, rfl⟩, fun further keeps => lookup keeps found rfl⟩
        rw [Trap.register, List.lookup_cons, beq_false_of_ne]
        · exact known
        · rintro rfl
          rw [new] at known
          cases known
      next => cases added
  next => cases same

section Compiler
variable (pc : PolicyCompiler)

theorem folds_return (ret : BitVec 32) : Folds (pc.return_ ret) := by
  unfold PolicyCompiler.return_
  split
  next => exact folds_trap _ _ _
  next => exact folds_makeInstruction _ _ _ _

theorem folds_maskedWord (idx mask value : BitVec 32) (passed failed : Nat) :
    Folds (PolicyCompiler.maskedWord idx mask value passed failed) := by
  have make := folds_makeInstruction
  unfold PolicyCompiler.maskedWord
  split_ifs
  · exact (folds_require _ _).bind fun _ => .pure _
  · exact (make _ _ _ _).bind fun _ => make _ _ _ _
  · exact (make _ _ _ _).bind fun _ => make _ _ _ _
  · exact (make _ _ _ _).bind fun _ => make _ _ _ _
  · exact (make _ _ _ _).bind fun _ => (make _ _ _ _).bind fun _ => make _ _ _ _

variable {unexpected : Emit Nat} (panics : Folds unexpected)
include panics

theorem folds_maskedEqualHalf (argno width : Nat) (mask value : BitVec 64) (half : ArgHalf) (passed failed : Nat) :
    Folds (PolicyCompiler.maskedEqualHalf unexpected argno width mask value half passed failed) := by
  have make := folds_makeInstruction
  unfold PolicyCompiler.maskedEqualHalf
  split
  next =>
    split
    next =>
      exact panics.bind fun _ => (make _ _ _ _).bind fun _ => (make _ _ _ _).bind fun _ => (make _ _ _ _).bind fun _ =>
        (make _ _ _ _).bind fun _ => make _ _ _ _
    next => exact folds_maskedWord _ _ _ _ _
  next => exact folds_maskedWord _ _ _ _ _

theorem folds_compileBool (cond : BoolExpr) (then_node else_node : Nat) :
    Folds (PolicyCompiler.compileBool unexpected cond then_node else_node) := by
  induction cond generalizing then_node else_node with
  | constBool value_ => exact .pure _
  | maskedEqual argno_ width_ mask_ value_ =>
    have half := folds_maskedEqualHalf panics
    exact (folds_require _ _).bind fun _ => (folds_require _ _).bind fun _ => (folds_require _ _).bind fun _ =>
      (folds_require _ _).bind fun _ => (folds_require _ _).bind fun _ => (folds_require _ _).bind fun _ =>
      (half _ _ _ _ _ _ _).bind fun _ => half _ _ _ _ _ _ _
  | negate cond_ ih => exact ih _ _
  | and lhs_ rhs_ lhsIh rhsIh => exact (rhsIh _ _).bind fun _ => lhsIh _ _
  | or lhs_ rhs_ lhsIh rhsIh => exact (rhsIh _ _).bind fun _ => lhsIh _ _

theorem folds_compileExpr (res : ResultExpr) : Folds (pc.compileExpr unexpected res) := by
  induction res with
  | returnResult ret_ note => exact folds_return pc _
  | trapResult func_ arg_ safe_ => exact folds_trap _ _ _
  | ifThenResult cond_ then_result_ else_result_ thenIh elseIh =>
    exact thenIh.bind fun _ => elseIh.bind fun _ => folds_compileBool panics _ _ _

omit panics in
theorem folds_compilePanic (depth : Nat) (error : String) : Folds (pc.compilePanic depth error) := by
  induction depth generalizing error with
  | zero => exact folds_throw _
  | succ depth ih => exact folds_compileExpr pc (ih _) _

omit panics in
theorem folds_compileResult (depth : Nat) (res : ResultExpr) : Folds (pc.compileResult depth res) :=
  folds_compileExpr pc (folds_compilePanic pc depth _) res

end Compiler

/-! ### Ranges of numbers -/

/-- The node `FindRanges` gives to one system call number. -/
def nodeIn (ranges : List SyscallRange) (evaluate : BitVec 32 → Emit Nat) (invalid_node : Nat) (sysnum : BitVec 32) :
    Emit Nat :=
  if SyscallSet.isValidIn ranges sysnum then evaluate sysnum else return invalid_node

/-- The loop of `FindRanges`, with the range under construction. -/
def findRangesFromIn (nodeOf : BitVec 32 → Emit Nat) :
    List (BitVec 32) → List Range → BitVec 32 → Nat → Emit (List Range)
  | [], ranges, old_sysnum, old_node => return ranges ++ [⟨old_sysnum, old_node⟩]
  | sysnum :: rest, ranges, old_sysnum, old_node => do
      let node ← nodeOf sysnum
      if node ≠ old_node then findRangesFromIn nodeOf rest (ranges ++ [⟨old_sysnum, old_node⟩]) sysnum node
      else findRangesFromIn nodeOf rest ranges old_sysnum old_node

/-- `FindRanges`; `invalid` and `evaluate` compile the results of the policy. -/
def findRangesIn (arch : Arch) (invalid : Emit Nat) (evaluate : BitVec 32 → Emit Nat) : Emit (List Range) := do
  let invalid_node ← invalid
  let nodeOf := nodeIn arch.validSyscallRanges evaluate invalid_node
  let old_node ← nodeOf 0
  findRangesFromIn nodeOf (SyscallSet.elementsIn arch.validSyscallRanges .ALL) [] 0 old_node

theorem findRanges_eq (pc : PolicyCompiler) (depth : Nat) :
    pc.findRanges depth = findRangesIn .x86_64 (pc.compileResult depth pc.policy_.invalidSyscall)
      (fun sysnum => pc.compileResult depth (pc.policy_.evaluateSyscall sysnum)) := by
  have loop (invalid_node : Nat) (sysnums : List (BitVec 32)) (ranges : List Range) (old_sysnum : BitVec 32)
      (old_node : Nat) : pc.findRangesFrom depth invalid_node sysnums ranges old_sysnum old_node =
        findRangesFromIn (nodeIn Arch.x86_64.validSyscallRanges
          (fun sysnum => pc.compileResult depth (pc.policy_.evaluateSyscall sysnum)) invalid_node)
          sysnums ranges old_sysnum old_node := by
    induction sysnums generalizing ranges old_sysnum old_node with
    | nil => rfl
    | cons sysnum rest ih =>
      simp only [PolicyCompiler.findRangesFrom, findRangesFromIn, ih]
      rfl
  simp only [PolicyCompiler.findRanges, findRangesIn, loop, SyscallSet.elements_eq]
  rfl

/-- The range of `number` is the last that starts at or below it. -/
def Assigned (ranges : List Range) (number : BitVec 32) (index : Fin ranges.length) : Prop :=
  (ranges.get index).from_ ≤ number ∧ ∀ later, index < later → number < (ranges.get later).from_

/-- Every number has exactly one range, and compiling its result again gives the range's node and no more code. -/
def Assigns (arch : Arch) (invalid : Emit Nat) (evaluate : BitVec 32 → Emit Nat) (result : List Range × CompileState) :
    Prop :=
  ∃ invalid_node, invalid result.2 = .ok (invalid_node, result.2) ∧ ∀ number, ∃ index,
    (∀ other, Assigned result.1 number other ↔ other = index) ∧
      nodeIn arch.validSyscallRanges evaluate invalid_node number result.2 = .ok ((result.1.get index).node, result.2)

theorem nextSample_le (sysnums : List (BitVec 32)) : nextSample sysnums ≤ 2 ^ 32 := by
  cases sysnums with
  | nil => exact Nat.le_refl _
  | cons sysnum rest => exact Nat.le_of_lt sysnum.isLt

/-- The samples stand for the numbers up to the next sample. -/
def Represents (same : BitVec 32 → BitVec 32 → Prop) : List (BitVec 32) → Prop
  | [] => True
  | sysnum :: rest => sysnum.toNat ≤ nextSample rest ∧
      (∀ number, sysnum ≤ number → number.toNat < nextSample rest → same sysnum number) ∧ Represents same rest

theorem represents_of_skipped {same : BitVec 32 → BitVec 32 → Prop} {sysnums : List (BitVec 32)}
    (sorted : sysnums.Pairwise (· < ·))
    (skipped : ∀ sysnum ∈ sysnums, ∀ number, sysnum < number →
      (∀ other, sysnum < other → other ≤ number → other ∉ sysnums) → same sysnum number)
    (refl : ∀ number, same number number) : Represents same sysnums := by
  induction sysnums with
  | nil => trivial
  | cons sysnum rest ih =>
    have ⟨ahead, sorted⟩ := List.pairwise_cons.1 sorted
    have least (other : BitVec 32) (member : other ∈ rest) : nextSample rest ≤ other.toNat := by
      cases rest with
      | nil => exact absurd member List.not_mem_nil
      | cons next later =>
        rcases List.mem_cons.1 member with rfl | inLater
        · exact Nat.le_refl _
        · exact Nat.le_of_lt ((List.pairwise_cons.1 sorted).1 other inLater)
    refine ⟨?_, fun number above below => ?_, ih sorted fun later member number above gone => ?_⟩
    · cases rest with
      | nil => exact Nat.le_of_lt sysnum.isLt
      | cons next later => exact Nat.le_of_lt (ahead next List.mem_cons_self)
    · by_cases equal : sysnum = number
      · exact equal ▸ refl sysnum
      · refine skipped sysnum List.mem_cons_self number (by bv_omega) fun other after before member => ?_
        have least := least other ((List.mem_cons.1 member).resolve_left (by bv_omega))
        bv_omega
    · refine skipped later (List.mem_cons_of_mem _ member) number above fun other after before found => ?_
      have first := ahead later member
      exact gone other after before ((List.mem_cons.1 found).resolve_left (by bv_omega))

/-- Between two numbers of `ALL` the validity does not change, and is only skipped where it is false. -/
theorem represents_all (arch : Arch) (evaluate : BitVec 32 → Emit Nat) (invalid_node : Nat) :
    Represents (fun sysnum number => nodeIn arch.validSyscallRanges evaluate invalid_node sysnum =
      nodeIn arch.validSyscallRanges evaluate invalid_node number)
      (SyscallSet.elementsIn arch.validSyscallRanges .ALL) := by
  have ⟨sorted, members, _⟩ := SyscallSet.elementsIn_spec arch.spaced .ALL
  refine represents_of_skipped sorted ?_ fun _ => ?_
  rotate_left
  · rfl
  intro sysnum member number above skipped
  have outside (other : BitVec 32) (after : sysnum < other) (before : other ≤ number) :
      ¬SyscallSet.Sample arch.validSyscallRanges other := fun sample =>
    skipped other after before ((members other).2 ⟨sample, SyscallSet.noConfusion, SyscallSet.noConfusion⟩)
  have next := outside (sysnum + 1) (by bv_omega) (by bv_omega)
  rw [nodeIn, nodeIn, if_neg fun valid => ?_, if_neg fun valid => outside number above (by bv_omega)
    (SyscallSet.sample_of_valid valid)]
  refine next (SyscallSet.sample_of_change (.inr ?_))
  rw [BitVec.add_sub_cancel, valid, ne_comm, ne_eq, Bool.not_eq_true, Bool.eq_false_iff]
  exact fun valid => next (SyscallSet.sample_of_valid valid)

theorem nextSample_all (arch : Arch) : nextSample (SyscallSet.elementsIn arch.validSyscallRanges .ALL) = 0 := by
  have ⟨sorted, members, _⟩ := SyscallSet.elementsIn_spec arch.spaced .ALL
  have zero := (members 0).2 ⟨.inl rfl, SyscallSet.noConfusion, SyscallSet.noConfusion⟩
  cases found : SyscallSet.elementsIn arch.validSyscallRanges .ALL with
  | nil => exact absurd (found ▸ zero) List.not_mem_nil
  | cons first rest =>
    rw [found] at zero sorted
    rcases List.mem_cons.1 zero with rfl | inRest
    · rfl
    · exact absurd ((List.pairwise_cons.1 sorted).1 0 inRest) (Nat.not_lt_zero _)

/-- The node of `emit` is settled: emitting it again changes nothing. -/
def Settled (state : CompileState) (emit : Emit Nat) (node : Nat) : Prop :=
  ∀ further, state.Keeps further → emit further = .ok (node, further)

/-- The compilation of a policy's result that stopped `FindRanges`. -/
def Stops (invalid : Emit Nat) (evaluate : BitVec 32 → Emit Nat) (failure : CompileCheck) : Prop :=
  ∃ state, invalid state = .error failure ∨ ∃ sysnum, evaluate sysnum state = .error failure

theorem Folds.ensures {emit : Emit Nat} (folds : Folds emit) {fails : CompileCheck → Prop} (state : CompileState)
    (stops : ∀ failure, emit state = .error failure → fails failure) :
    Ensures fails (emit state) fun result => state.Keeps result.2 ∧ Settled result.2 emit result.1 := by
  cases emitted : emit state with
  | error failure => exact stops failure emitted
  | ok result => exact folds state result.1 result.2 emitted

theorem ensures_findRangesFromIn {nodeOf : BitVec 32 → Emit Nat} (folds : ∀ sysnum, Folds (nodeOf sysnum))
    {fails : CompileCheck → Prop} (stops : ∀ sysnum state failure, nodeOf sysnum state = .error failure → fails failure)
    {sysnums : List (BitVec 32)} (represents : Represents (fun sysnum number => nodeOf sysnum = nodeOf number) sysnums)
    {state : CompileState} {ranges : List Range} {old_sysnum : BitVec 32} {old_node : Nat}
    (tiles : Tiles (·.from_.toNat)
      (fun range number => Settled state (nodeOf (BitVec.ofNat 32 number)) range.node) 0 old_sysnum.toNat ranges)
    (forward : old_sysnum.toNat ≤ nextSample sysnums)
    (covers : ∀ number, old_sysnum.toNat ≤ number → number < nextSample sysnums →
      Settled state (nodeOf (BitVec.ofNat 32 number)) old_node) :
    Ensures fails (findRangesFromIn nodeOf sysnums ranges old_sysnum old_node state) fun result =>
      state.Keeps result.2 ∧ Tiles (·.from_.toNat)
        (fun range number => Settled result.2 (nodeOf (BitVec.ofNat 32 number)) range.node) 0 (2 ^ 32) result.1 := by
  induction sysnums generalizing state ranges old_sysnum old_node with
  | nil => exact ⟨.refl _, tiles.snoc (Range.mk old_sysnum old_node) forward covers⟩
  | cons sysnum rest ih =>
    obtain ⟨advance, stands, represents⟩ := represents
    apply ((folds sysnum).ensures state (stops sysnum state)).bind
    · intro result kept
      obtain ⟨kept, settled⟩ := kept
      have keep {emit : Emit Nat} {node : Nat} (old : Settled state emit node) : Settled result.2 emit node :=
        fun further keeps => old further (kept.trans keeps)
      have tiles := tiles.mono fun _ _ => keep
      have fresh (number : Nat) (above : sysnum.toNat ≤ number) (below : number < nextSample rest) :
          Settled result.2 (nodeOf (BitVec.ofNat 32 number)) result.1 := by
        have same : (BitVec.ofNat 32 number).toNat = number :=
          Nat.mod_eq_of_lt (Nat.lt_of_lt_of_le below (nextSample_le rest))
        rw [← stands _ (by rw [BitVec.le_def, same]; exact above) (by rw [same]; exact below)]
        exact settled
      by_cases new : result.1 ≠ old_node
      · simp only [if_pos new]
        refine (ih represents (tiles.snoc (Range.mk old_sysnum old_node) forward fun number above below =>
          keep (covers number above below)) advance fresh).mono fun _ done => ⟨kept.trans done.1, done.2⟩
      · simp only [if_neg new]
        refine (ih represents tiles (Nat.le_trans forward advance) fun number above below => ?_).mono
          fun _ done => ⟨kept.trans done.1, done.2⟩
        by_cases old : number < sysnum.toNat
        · exact keep (covers number above old)
        · rw [← not_not.1 new]
          exact fresh number (Nat.le_of_not_lt old) below

/-- `FindRanges` gives every number its node, unless a compilation stops it. -/
def FindsRanges (arch : Arch) (invalid : Emit Nat) (evaluate : BitVec 32 → Emit Nat)
    (result : Except CompileCheck (List Range × CompileState)) : Prop :=
  (∃ found, result = .ok found ∧ Assigns arch invalid evaluate found) ∨
    ∃ failure, result = .error failure ∧ Stops invalid evaluate failure

theorem ensures_findRangesIn (arch : Arch) {invalid : Emit Nat} {evaluate : BitVec 32 → Emit Nat}
    (foldsInvalid : Folds invalid) (folds : ∀ sysnum, Folds (evaluate sysnum)) (state : CompileState) :
    Ensures (Stops invalid evaluate) (findRangesIn arch invalid evaluate state) (Assigns arch invalid evaluate) := by
  apply (foldsInvalid.ensures state fun failure stopped => ⟨state, .inl stopped⟩).bind
  intro result kept
  obtain ⟨invalid_node, later⟩ := result
  have foldsNode (sysnum : BitVec 32) : Folds (nodeIn arch.validSyscallRanges evaluate invalid_node sysnum) := by
    unfold nodeIn
    split
    next => exact folds sysnum
    next => exact .pure _
  have stops (sysnum : BitVec 32) (state : CompileState) (failure : CompileCheck)
      (stopped : nodeIn arch.validSyscallRanges evaluate invalid_node sysnum state = .error failure) :
      Stops invalid evaluate failure := by
    unfold nodeIn at stopped
    split at stopped
    next => exact ⟨state, .inr ⟨sysnum, stopped⟩⟩
    next => cases stopped
  apply ((foldsNode 0).ensures later (stops 0 later)).bind
  intro result first
  apply (ensures_findRangesFromIn foldsNode stops (represents_all arch evaluate invalid_node) (.nil 0) (Nat.zero_le _)
    (by rw [nextSample_all]; exact fun _ _ below => absurd below (Nat.not_lt_zero _))).mono
  intro result last
  refine ⟨invalid_node, kept.2 _ (first.1.trans last.1), fun number => ?_⟩
  obtain ⟨index, assigned, holds⟩ := last.2.exists_last (Nat.zero_le _) number.isLt
  refine ⟨index, fun other => ⟨fun assigned' => ?_, fun same => same ▸ assigned⟩, ?_⟩
  · rcases lt_trichotomy other index with before | same | after
    · exact absurd assigned.1 (Nat.not_le.2 (assigned'.2 index before))
    · exact same
    · exact absurd assigned'.1 (Nat.not_le.2 (assigned.2 other after))
  · have again := holds result.2 (.refl _)
    rwa [BitVec.ofNat_toNat, BitVec.setWidth_eq] at again

/-- The iteration on every architecture, and the ranges of every code that folds, such as a policy's. -/
theorem syscallSet_iteration :
    (∀ arch : Arch, ∀ ranges, ranges = arch.validSyscallRanges →
      (∀ set : SyscallSet, (SyscallSet.elementsIn ranges set).Pairwise (· < ·) ∧
        (SyscallSet.advanceIn ranges)^[(SyscallSet.elementsIn ranges set).length] (SyscallSet.beginIn ranges set) =
          set.endIterator) ∧
      (∀ num, (num ∈ SyscallSet.elementsIn ranges .ALL ↔
          num ∈ SyscallSet.elementsIn ranges .VALID_ONLY ∨ num ∈ SyscallSet.elementsIn ranges .INVALID_ONLY) ∧
        ¬(num ∈ SyscallSet.elementsIn ranges .VALID_ONLY ∧ num ∈ SyscallSet.elementsIn ranges .INVALID_ONLY)) ∧
      ∀ num, SyscallSet.isValidIn ranges num = true ∨ num = 0 ∨
          SyscallSet.isValidIn ranges (num - 1) ≠ SyscallSet.isValidIn ranges num →
        num ∈ SyscallSet.elementsIn ranges .ALL) ∧
    (∀ (arch : Arch) (invalid : Emit Nat) (evaluate : BitVec 32 → Emit Nat), Folds invalid →
      (∀ sysnum, Folds (evaluate sysnum)) → ∀ state,
        FindsRanges arch invalid evaluate (findRangesIn arch invalid evaluate state)) ∧
    ∀ (pc : PolicyCompiler) (depth : Nat) (state : CompileState),
      FindsRanges .x86_64 (pc.compileResult depth pc.policy_.invalidSyscall)
        (fun sysnum => pc.compileResult depth (pc.policy_.evaluateSyscall sysnum)) (pc.findRanges depth state) := by
  have finds (arch : Arch) (invalid : Emit Nat) (evaluate : BitVec 32 → Emit Nat) (foldsInvalid : Folds invalid)
      (folds : ∀ sysnum, Folds (evaluate sysnum)) (state : CompileState) :
      FindsRanges arch invalid evaluate (findRangesIn arch invalid evaluate state) := by
    have ensured := ensures_findRangesIn arch foldsInvalid folds state
    cases result : findRangesIn arch invalid evaluate state with
    | error failure => exact .inr ⟨failure, rfl, ensured.of_error result⟩
    | ok found => exact .inl ⟨found, rfl, ensured.of_ok result⟩
  refine ⟨?_, finds, fun pc depth state => ?_⟩
  · rintro arch _ rfl
    have spec (set : SyscallSet) := SyscallSet.elementsIn_spec arch.spaced set
    refine ⟨fun set => ⟨(spec set).1, (spec set).2.2⟩, fun num => ?_, fun num either => ?_⟩
    · rw [(spec _).2.1, (spec _).2.1, (spec _).2.1]
      simp only [SyscallSet.InSet]
      grind
    · refine ((spec _).2.1 num).2 ⟨?_, SyscallSet.noConfusion, SyscallSet.noConfusion⟩
      exact either.elim SyscallSet.sample_of_valid SyscallSet.sample_of_change
  · rw [findRanges_eq]
    exact finds _ _ _ (folds_compileResult pc depth _) (fun _ => folds_compileResult pc depth _) state

theorem syscallSet_iteration_arm :
    FindsRanges .arm (pure 1) (fun sysnum => pure sysnum.toNat)
      (findRangesIn .arm (pure 1) (fun sysnum => pure sysnum.toNat) ⟨{}, Trap.fresh false⟩) :=
  syscallSet_iteration.2.1 .arm (pure 1) (fun sysnum => pure sysnum.toNat) (.pure 1) (fun sysnum => .pure sysnum.toNat) _

end Libchrome.Bpf
