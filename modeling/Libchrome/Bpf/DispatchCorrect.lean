import Libchrome.Bpf.ExpressionCorrect
import Libchrome.Library.Tiling

/-! The dispatch on the system call number: every number ends up in a range whose
node answers as the policy does for that number. -/

namespace Libchrome.Bpf
open Library.Checked Library.Tiling

theorem isValid_iff (sysnum : BitVec 32) : SyscallSet.isValid sysnum = true ↔ sysnum.toNat ≤ 1024 := by
  simp [SyscallSet.isValid, kValidSyscallRanges, BitVec.le_def]

/-- The policy's verdict on a system call that passed the architecture and ABI checks. -/
def PolicyCompiler.syscallVerdict (pc : PolicyCompiler) (depth : Nat) (data : ArchSeccompData) : Option Verdict :=
  if SyscallSet.isValid data.nr then pc.resultVerdict depth (pc.policy_.evaluateSyscall data.nr) data
  else pc.resultVerdict depth pc.policy_.invalidSyscall data

/-- The node of `range` is right for the system call `number`. -/
def Serves (pc : PolicyCompiler) (depth : Nat) (state : CompileState) (range : Range) (number : Nat) : Prop :=
  Behaves pc.has_unsafe_traps_ state range.node (fun data _ => data.nr.toNat = number) (pc.syscallVerdict depth)

/-- The ranges divide the numbers from `low` up to `high` among right nodes. -/
structure Divides (pc : PolicyCompiler) (depth : Nat) (state : CompileState) (low high : Nat)
    (ranges : List Range) : Prop where
  tiles : Tiles (·.from_.toNat) (Serves pc depth state) low high ranges
  emitted : ∀ range ∈ ranges, state.gen_.Emitted range.node

/-- Where the numbers that a sample stands for end: at the next sample. -/
def nextSample : List (BitVec 32) → Nat
  | [] => 2 ^ 32
  | sysnum :: _ => sysnum.toNat

/-- The samples stand for all numbers from the first of them on: only invalid numbers are skipped. -/
def Sampled : List (BitVec 32) → Prop
  | [] => True
  | sysnum :: rest =>
      (nextSample rest = sysnum.toNat + 1 ∨ 1024 < sysnum.toNat ∧ sysnum.toNat ≤ nextSample rest) ∧ Sampled rest

instance decidableSampled : DecidablePred Sampled
  | [] => inferInstanceAs (Decidable True)
  | _ :: rest =>
      have := decidableSampled rest
      inferInstanceAs (Decidable (_ ∧ _))

theorem sampled_all : Sampled SyscallSet.ALL.elements ∧ nextSample SyscallSet.ALL.elements = 0 := by
  decide +kernel

section Dispatch
variable {pc : PolicyCompiler} {depth : Nat} {state : CompileState}

theorem Serves.grows {later : CompileState} {range : Range} {number : Nat}
    (serves : Serves pc depth state range number) (grows : state.Grows later) :
    Serves pc depth later range number := Behaves.grows serves grows

variable {low high : Nat} {ranges : List Range}

theorem Divides.grows {later : CompileState} (divides : Divides pc depth state low high ranges)
    (grows : state.Grows later) : Divides pc depth later low high ranges where
  tiles := divides.tiles.mono fun _ _ serves => serves.grows grows
  emitted := fun range member => grows.gen.emitted (divides.emitted range member)

theorem Divides.snoc (range : Range) (divides : Divides pc depth state low range.from_.toNat ranges)
    (forward : range.from_.toNat ≤ high) (emitted : state.gen_.Emitted range.node)
    (covers : ∀ number, range.from_.toNat ≤ number → number < high → Serves pc depth state range number) :
    Divides pc depth state low high (ranges ++ [range]) where
  tiles := divides.tiles.snoc range forward covers
  emitted := by
    intro other member
    rcases List.mem_append.1 member with old | new
    · exact divides.emitted other old
    · rw [List.mem_singleton.1 new]
      exact emitted

theorem emits_nodeOfSyscall (sound : state.Sound pc.has_unsafe_traps_) {invalid_node : Nat}
    (invalid : Behaves pc.has_unsafe_traps_ state invalid_node Anytime
      (pc.resultVerdict depth pc.policy_.invalidSyscall)) (sysnum : BitVec 32) :
    Emits pc.has_unsafe_traps_ (pc.nodeOfSyscall depth invalid_node sysnum) state (fun node later =>
      ∀ from_ number, number = sysnum.toNat ∨ 1024 < sysnum.toNat ∧ sysnum.toNat ≤ number →
        Serves pc depth later ⟨from_, node⟩ number) := by
  unfold PolicyCompiler.nodeOfSyscall
  by_cases valid : SyscallSet.isValid sysnum = true
  · rw [if_pos valid]
    have small := (isValid_iff sysnum).1 valid
    apply (emits_compileResult pc depth _ sound).mono
    intro node later _ behaves from_ number stands
    apply behaves.mono
    intro data registers called
    have same : data.nr = sysnum := BitVec.eq_of_toNat_eq (by omega)
    rw [PolicyCompiler.syscallVerdict, same, if_pos valid]
    exact ⟨trivial, rfl⟩
  · rw [if_neg valid]
    have large := mt (isValid_iff sysnum).2 valid
    apply Emits.pure sound
    intro from_ number stands
    apply invalid.mono
    intro data registers called
    have above : ¬SyscallSet.isValid data.nr = true := by
      rw [isValid_iff]
      omega
    rw [PolicyCompiler.syscallVerdict, if_neg above]
    exact ⟨trivial, rfl⟩

/-- Each iteration of `FindRanges` keeps the ranges found so far a tiling of the numbers below the sample. -/
theorem emits_findRangesFrom (sysnums : List (BitVec 32)) (sampled : Sampled sysnums)
    (sound : state.Sound pc.has_unsafe_traps_) {invalid_node old_node : Nat} {old_sysnum : BitVec 32}
    (invalid : Behaves pc.has_unsafe_traps_ state invalid_node Anytime
      (pc.resultVerdict depth pc.policy_.invalidSyscall))
    (divides : Divides pc depth state 0 old_sysnum.toNat ranges) (emitted : state.gen_.Emitted old_node)
    (forward : old_sysnum.toNat ≤ nextSample sysnums)
    (covers : ∀ number, old_sysnum.toNat ≤ number → number < nextSample sysnums →
      Serves pc depth state ⟨old_sysnum, old_node⟩ number) :
    Emits pc.has_unsafe_traps_ (pc.findRangesFrom depth invalid_node sysnums ranges old_sysnum old_node) state
      (fun ranges later => Divides pc depth later 0 (2 ^ 32) ranges) := by
  induction sysnums generalizing state ranges old_sysnum old_node with
  | nil =>
    apply Emits.pure sound
    exact divides.snoc (Range.mk old_sysnum old_node) forward emitted covers
  | cons sysnum rest ih =>
    obtain ⟨next, sampled⟩ := sampled
    have advance : sysnum.toNat ≤ nextSample rest := by omega
    have stands (number : Nat) (above : sysnum.toNat ≤ number) (below : number < nextSample rest) :
        number = sysnum.toNat ∨ 1024 < sysnum.toNat ∧ sysnum.toNat ≤ number := by omega
    rw [PolicyCompiler.findRangesFrom]
    apply (emits_nodeOfSyscall sound invalid sysnum).bind
    intro node later sound grown serves
    have invalid := invalid.grows grown
    have divides := divides.grows grown
    have emitted := grown.gen.emitted emitted
    have covers (number : Nat) (above : old_sysnum.toNat ≤ number) (below : number < sysnum.toNat) :=
      (covers number above below).grows grown
    by_cases new : node ≠ old_node
    · rw [if_pos new]
      apply ih sampled sound invalid (divides.snoc (Range.mk old_sysnum old_node) forward emitted covers)
        (serves sysnum sysnum.toNat (.inl rfl)).emitted advance
      intro number above below
      exact serves _ number (stands number above below)
    · rw [if_neg new]
      apply ih sampled sound invalid divides emitted (Nat.le_trans forward advance)
      intro number above below
      by_cases old : number < sysnum.toNat
      · exact covers number above old
      · obtain rfl := not_not.1 new
        exact serves _ number (stands number (Nat.le_of_not_lt old) below)

theorem emits_findRanges (sound : state.Sound pc.has_unsafe_traps_) :
    Emits pc.has_unsafe_traps_ (pc.findRanges depth) state
      (fun ranges later => Divides pc depth later 0 (2 ^ 32) ranges) := by
  have ⟨sampled, zero⟩ := sampled_all
  apply (emits_compileResult pc depth _ sound).bind
  intro invalid_node later sound _ invalid
  apply (emits_nodeOfSyscall sound invalid 0).bind
  intro old_node later sound grown serves
  have nothing : Divides pc depth later 0 (0 : BitVec 32).toNat [] := ⟨.nil 0, by intro range member; cases member⟩
  apply emits_findRangesFrom _ sampled sound (invalid.grows grown) nothing (serves 0 0 (.inl rfl)).emitted
    (Nat.zero_le _)
  intro number _ below
  omega

/-- A node that is right for the loaded system call numbers from `low` up to `high`. -/
def Searches (pc : PolicyCompiler) (depth : Nat) (state : CompileState) (low high node : Nat) : Prop :=
  Behaves pc.has_unsafe_traps_ state node
    (fun data registers => Loaded (·.nr) data registers ∧ low ≤ data.nr.toNat ∧ data.nr.toNat < high)
    (pc.syscallVerdict depth)

theorem Divides.single {range : Range} (divides : Divides pc depth state low high [range]) :
    Searches pc depth state low high range.node where
  emitted := divides.emitted range List.mem_cons_self
  answers := by
    intro data registers called
    exact (divides.tiles.single data.nr.toNat called.2.1 called.2.2).answers data registers rfl

theorem Divides.halve {mid : Nat} (divides : Divides pc depth state low high ranges) (inside : mid < ranges.length) :
    Divides pc depth state low ranges[mid].from_.toNat (ranges.take mid) ∧
      Divides pc depth state ranges[mid].from_.toNat high (ranges.drop mid) := by
  have cut : ranges = ranges.take mid ++ ranges[mid] :: ranges.drop (mid + 1) := by
    rw [← List.drop_eq_getElem_cons inside, List.take_append_drop]
  have tiles := divides.tiles
  rw [cut] at tiles
  have ⟨left, right⟩ := tiles.split
  rw [← List.drop_eq_getElem_cons inside] at right
  exact ⟨⟨left, fun range member => divides.emitted range (List.mem_of_mem_take member)⟩,
    ⟨right, fun range member => divides.emitted range (List.mem_of_mem_drop member)⟩⟩

/-- The jump table is a binary search over the ranges. -/
theorem emits_assembleJumpTable (ranges : List Range) (sound : state.Sound pc.has_unsafe_traps_)
    (divides : Divides pc depth state low high ranges) :
    Emits pc.has_unsafe_traps_ (PolicyCompiler.assembleJumpTable ranges) state
      (fun node later => Searches pc depth later low high node) := by
  induction ranges using PolicyCompiler.assembleJumpTable.induct generalizing low high state with
  | case1 =>
    rw [PolicyCompiler.assembleJumpTable]
    exact emits_throw
  | case2 range =>
    rw [PolicyCompiler.assembleJumpTable]
    apply Emits.pure sound
    exact divides.single
  | case3 first second rest ranges mid inside =>
    rename_i leftIh rightIh
    rw [PolicyCompiler.assembleJumpTable]
    have ⟨left, right⟩ := divides.halve inside
    apply (leftIh sound left).bind
    intro jf later sound grown below
    apply (rightIh sound (right.grows grown)).bind
    intro jt later sound grown above
    apply emits_test .atLeast sound
    · intro data registers called
      rw [called.1]
    · apply above.mono
      intro data registers holds
      obtain ⟨⟨loaded, _, less⟩, reached⟩ := holds
      rw [loaded] at reached
      exact ⟨⟨loaded, BitVec.le_def.1 (of_decide_eq_true reached), less⟩, rfl⟩
    · apply (below.grows grown).mono
      intro data registers holds
      obtain ⟨⟨loaded, least, _⟩, missed⟩ := holds
      rw [loaded] at missed
      exact ⟨⟨loaded, least, Nat.lt_of_not_le (mt BitVec.le_def.2 (of_decide_eq_false missed))⟩, rfl⟩

end Dispatch
end Libchrome.Bpf
