import Libchrome.Library.Checked
import Libchrome.Library.Numbering
import Libchrome.Library.OrderedMap
import Mathlib.Data.Prod.Lex
import Mathlib.Order.BooleanAlgebra.Basic

/-!
# Trap handlers

The registry behind `SECCOMP_RET_TRAP` (`trap.cc`), with the map from handlers to ids and the array that
the signal handler reads.
-/

namespace Libchrome.SeccompBpf
open Library Checked Numbering

abbrev Address := BitVec 64

structure TrapKey where
  fnc : Address
  aux : Address
  safe : Bool
  deriving DecidableEq, Repr

namespace TrapKey

/-- `TrapKey()`. -/
def null : TrapKey := ⟨0, 0, false⟩

/-- `std::tie`. -/
def tie (key : TrapKey) : ℕ ×ₗ ℕ ×ₗ Bool :=
  toLex (key.fnc.toNat, toLex (key.aux.toNat, key.safe))

theorem tie_injective : Function.Injective tie := by
  intro key o same
  obtain ⟨fnc, aux, safe⟩ := key
  obtain ⟨ofnc, oaux, osafe⟩ := o
  simp only [tie, EmbeddingLike.apply_eq_iff_eq, Prod.mk.injEq, BitVec.toNat_inj] at same
  rw [same.1, same.2.1, same.2.2]

/-- `operator<`. -/
instance : LinearOrder TrapKey := LinearOrder.lift' tie tie_injective

end TrapKey

/-- How a call can end the process. -/
inductive Fault where
  | unsafeTrapsDisabled
  | tooManyTraps
  | outOfBounds
  deriving DecidableEq, Repr

def kCapacityIncrement : Nat := 20

def SECCOMP_RET_DATA : Nat := 0xffff

/-- `trap_array_` is the whole block that was allocated. -/
structure Trap where
  trap_ids_ : OrderedMap TrapKey (BitVec 16)
  trap_array_ : List TrapKey
  trap_array_size_ : Nat
  trap_array_capacity_ : Nat

/-- A call of `Add`, and what `SandboxDebuggingAllowedByUser` says at that time. -/
structure Call where
  key : TrapKey
  debugging : Bool
  deriving DecidableEq, Repr

def Call.Allowed (call : Call) : Prop := call.key.safe = true ∨ call.debugging = true

instance (call : Call) : Decidable call.Allowed := by
  unfold Call.Allowed
  infer_instance

/-- `std::copy_n`. -/
def copy_n (source : List TrapKey) (count : Nat) (target : List TrapKey) : Except Fault (List TrapKey) := do
  check (count ≤ source.length ∧ count ≤ target.length) .outOfBounds
  return source.take count ++ target.drop count

namespace Trap

/-- `Trap()`. -/
def initial : Trap where
  trap_ids_ := .empty
  trap_array_ := []
  trap_array_size_ := 0
  trap_array_capacity_ := 0

/-- The array is replaced by a longer one when it is full. -/
def grow (trap : Trap) : Except Fault Trap :=
  if trap.trap_array_size_ ≥ trap.trap_array_capacity_ then do
    let capacity := trap.trap_array_capacity_ + kCapacityIncrement
    let new_trap_array ← copy_n trap.trap_array_ trap.trap_array_size_ (List.replicate capacity .null)
    return { trap with trap_array_ := new_trap_array, trap_array_capacity_ := capacity }
  else return trap

/-- `trap_ids_[key] = id`. -/
def remember (trap : Trap) (key : TrapKey) (id : BitVec 16) : Trap :=
  { trap with trap_ids_ := trap.trap_ids_.update key fun _ => id }

/-- `trap_array_[trap_array_size_] = key`. -/
def store (trap : Trap) (key : TrapKey) : Except Fault Trap := do
  check (trap.trap_array_size_ < trap.trap_array_.length) .outOfBounds
  return { trap with trap_array_ := trap.trap_array_.set trap.trap_array_size_ key }

def count (trap : Trap) : Trap :=
  { trap with trap_array_size_ := trap.trap_array_size_ + 1 }

/-- `Add`. -/
def add (trap : Trap) (call : Call) : Except Fault (BitVec 16 × Trap) := do
  check call.Allowed .unsafeTrapsDisabled
  match trap.trap_ids_.find call.key with
  | some id => return (id, trap)
  | none =>
    check (¬(trap.trap_array_size_ ≥ SECCOMP_RET_DATA ∨ trap.trap_array_size_ ≥ 2 ^ 16 - 1)) .tooManyTraps
    let trap ← trap.grow
    let id := BitVec.ofNat 16 (trap.trap_array_size_ + 1)
    let trap ← (trap.remember call.key id).store call.key
    return (id, trap.count)

/-- One call after the other, with the ids that they return. -/
def addAll (trap : Trap) : List Call → Except Fault (List (BitVec 16) × Trap)
  | [] => return ([], trap)
  | call :: calls => do
    let (id, trap) ← trap.add call
    let (ids, trap) ← addAll trap calls
    return (id :: ids, trap)

/-- The id of a key that is known. -/
def idIn (issued : List TrapKey) (key : TrapKey) : BitVec 16 := BitVec.ofNat 16 (issued.idxOf key + 1)

/-- The signal handler finds every issued key under its id. -/
def Serves (trap : Trap) (issued : List TrapKey) : Prop := issued <+: trap.trap_array_

/-- The map, the array and its size agree on the keys issued so far. -/
structure Holds (trap : Trap) (issued : List TrapKey) : Prop where
  distinct : issued.Nodup
  few : issued.length ≤ SECCOMP_RET_DATA
  size : trap.trap_array_size_ = issued.length
  capacity : trap.trap_array_.length = trap.trap_array_capacity_
  fits : trap.trap_array_size_ ≤ trap.trap_array_capacity_
  serves : trap.Serves issued
  found : ∀ key, trap.trap_ids_.find key = if key ∈ issued then some (idIn issued key) else none

theorem Holds.initial : Holds initial [] where
  distinct := List.nodup_nil
  few := Nat.zero_le _
  size := rfl
  capacity := rfl
  fits := Nat.le_refl 0
  serves := List.nil_prefix
  found _ := rfl

variable {trap : Trap} {issued : List TrapKey}

theorem copy_n_eq {source target : List TrapKey} {count : Nat} (inSource : count ≤ source.length)
    (inTarget : count ≤ target.length) : copy_n source count target = .ok (source.take count ++ target.drop count) := by
  rw [copy_n, check, if_pos ⟨inSource, inTarget⟩]
  rfl

/-- The array that replaces a full one serves the same keys, and has room. -/
theorem Holds.grow (holds : Holds trap issued) : ∃ grown, trap.grow = .ok grown ∧ Holds grown issued ∧
    grown.trap_array_size_ < grown.trap_array_.length := by
  unfold Trap.grow
  split
  next full =>
    have inside : trap.trap_array_size_ ≤ trap.trap_array_.length := by
      rw [holds.capacity]
      exact holds.fits
    have room : trap.trap_array_size_ + kCapacityIncrement ≤ (List.replicate
        (trap.trap_array_capacity_ + kCapacityIncrement) TrapKey.null).length := by
      rw [List.length_replicate]
      exact Nat.add_le_add_right holds.fits _
    have copied : trap.trap_array_.take trap.trap_array_size_ = issued := by
      rw [holds.size]
      exact (List.prefix_iff_eq_take.mp holds.serves).symm
    have length : (issued ++ (List.replicate (trap.trap_array_capacity_ + kCapacityIncrement)
        TrapKey.null).drop trap.trap_array_size_).length = trap.trap_array_capacity_ + kCapacityIncrement := by
      rw [List.length_append, List.length_drop, List.length_replicate, ← holds.size]
      have fits := holds.fits
      omega
    dsimp only
    rw [copy_n_eq inside ((Nat.le_add_right _ _).trans room), copied]
    apply Exists.intro _
    apply And.intro rfl
    constructor
    · exact { holds with
        capacity := length
        fits := holds.fits.trans (Nat.le_add_right _ _)
        serves := List.prefix_append _ _ }
    · change trap.trap_array_size_ < _
      rw [length]
      exact Nat.lt_of_le_of_lt holds.fits (Nat.lt_add_of_pos_right (by decide))
  next notFull =>
    apply Exists.intro _
    apply And.intro rfl
    apply And.intro holds
    rw [holds.capacity]
    exact Nat.lt_of_not_ge notFull

/-- What is written behind the issued keys leaves them as they are. -/
theorem Serves.store (serves : trap.Serves issued) (size : trap.trap_array_size_ = issued.length)
    (room : trap.trap_array_size_ < trap.trap_array_.length) (key : TrapKey) :
    ∃ stored, trap.store key = .ok stored ∧ stored.Serves (issued ++ [key]) ∧
      stored = { trap with trap_array_ := trap.trap_array_.set trap.trap_array_size_ key } := by
  apply Exists.intro _
  apply And.intro
  · rw [Trap.store, check, if_pos room]
    rfl
  · apply And.intro _ rfl
    obtain ⟨spare, array⟩ := serves
    change issued ++ [key] <+: trap.trap_array_.set trap.trap_array_size_ key
    rw [size, ← array] at room ⊢
    rw [List.length_append] at room
    cases spare with
    | nil => exact absurd room (Nat.lt_irrefl _)
    | cons old spare =>
      rw [List.set_append_right _ _ (Nat.le_refl _), Nat.sub_self, List.set_cons_zero]
      exact ⟨spare, by rw [List.append_assoc, List.singleton_append]⟩

variable {key : TrapKey}

theorem idIn_append (member : key ∈ issued) (more : List TrapKey) : idIn (issued ++ more) key = idIn issued key := by
  rw [idIn, idIn, List.idxOf_append_of_mem member]

theorem idIn_fresh (fresh : key ∉ issued) : idIn (issued ++ [key]) key = BitVec.ofNat 16 (issued.length + 1) := by
  rw [idIn, List.idxOf_append_of_notMem fresh, List.idxOf_cons_self, Nat.add_zero]

variable {call : Call}

theorem Holds.add_known (holds : Holds trap issued) (allowed : call.Allowed) (member : call.key ∈ issued) :
    trap.add call = .ok (idIn issued call.key, trap) := by
  have found := holds.found call.key
  rw [if_pos member] at found
  rw [add, check, if_pos allowed, found]
  rfl

theorem Holds.add_fresh (holds : Holds trap issued) (allowed : call.Allowed) (fresh : call.key ∉ issued)
    (room : issued.length < SECCOMP_RET_DATA) :
    ∃ added, trap.add call = .ok (idIn (issued ++ [call.key]) call.key, added) ∧
      Holds added (issued ++ [call.key]) := by
  have unknown := holds.found call.key
  rw [if_neg fresh] at unknown
  have size : ¬(trap.trap_array_size_ ≥ SECCOMP_RET_DATA ∨ trap.trap_array_size_ ≥ 2 ^ 16 - 1) := by
    rw [holds.size]
    exact fun either => Nat.not_le_of_lt room (either.elim id id)
  obtain ⟨grown, grows, grownHolds, grownRoom⟩ := holds.grow
  have rememberedServes : (grown.remember call.key (BitVec.ofNat 16 (grown.trap_array_size_ + 1))).Serves issued :=
    grownHolds.serves
  obtain ⟨stored, stores, serves, result⟩ := rememberedServes.store grownHolds.size grownRoom call.key
  apply Exists.intro stored.count
  apply And.intro
  · rw [idIn_fresh fresh, ← grownHolds.size, add, check, if_pos allowed, unknown]
    rw [ok_bind]
    dsimp only
    rw [check, if_pos size, ok_bind, grows, ok_bind, stores]
    rfl
  · subst result
    constructor
    case distinct =>
      rw [← List.concat_eq_append]
      exact grownHolds.distinct.concat fresh
    case few =>
      rw [List.length_append]
      exact room
    case size =>
      rw [List.length_append, ← grownHolds.size]
      rfl
    case capacity => exact (List.length_set ..).trans grownHolds.capacity
    case fits =>
      rw [grownHolds.capacity] at grownRoom
      exact grownRoom
    case serves => exact serves
    case found =>
      intro key
      change (grown.trap_ids_.update call.key fun _ => BitVec.ofNat 16 (grown.trap_array_size_ + 1)).find key = _
      rw [OrderedMap.find_update, grownHolds.size, ← idIn_fresh fresh, grownHolds.found]
      by_cases same : key = call.key
      · rw [if_pos same, if_pos (by rw [same]; exact List.mem_append_right _ List.mem_cons_self), same]
      · rw [if_neg same]
        by_cases member : key ∈ issued
        · rw [if_pos member, if_pos (List.mem_append_left _ member), idIn_append member]
        · rw [if_neg member, if_neg]
          intro entered
          rcases List.mem_append.mp entered with known | new
          · exact member known
          · exact same (List.mem_singleton.mp new)

theorem add_disallowed (disallowed : ¬call.Allowed) : trap.add call = .error .unsafeTrapsDisabled := by
  rw [add, check, if_neg disallowed]
  rfl

section
variable (holds : Holds trap issued)
include holds

theorem Holds.add_full (allowed : call.Allowed) (fresh : call.key ∉ issued)
    (full : issued.length = SECCOMP_RET_DATA) : trap.add call = .error .tooManyTraps := by
  have unknown := holds.found call.key
  rw [if_neg fresh] at unknown
  have size : ¬¬(trap.trap_array_size_ ≥ SECCOMP_RET_DATA ∨ trap.trap_array_size_ ≥ 2 ^ 16 - 1) := by
    rw [holds.size, full, not_not]
    exact .inl (Nat.le_refl _)
  rw [add, check, if_pos allowed, unknown]
  rw [ok_bind]
  dsimp only
  rw [check, if_neg size]
  rfl

/-- A call that returns enters its key. -/
theorem Holds.add {id : BitVec 16} {added : Trap}
    (returned : trap.add call = .ok (id, added)) :
    Holds added (enter issued call.key) ∧ id = idIn (enter issued call.key) call.key := by
  by_cases allowed : call.Allowed
  · by_cases member : call.key ∈ issued
    · rw [holds.add_known allowed member] at returned
      cases returned
      rw [enter_of_mem member]
      exact ⟨holds, rfl⟩
    · by_cases room : issued.length < SECCOMP_RET_DATA
      · obtain ⟨next, adds, nextHolds⟩ := holds.add_fresh allowed member room
        rw [adds] at returned
        cases returned
        rw [enter_of_not_mem member]
        exact ⟨nextHolds, rfl⟩
      · rw [holds.add_full allowed member (Nat.le_antisymm holds.few (Nat.le_of_not_lt room))] at returned
        cases returned
  · rw [add_disallowed allowed] at returned
    cases returned

/-- The keys of a run are issued in the order in which they first come, and keep their ids. -/
theorem Holds.addAll {calls : List Call} {ids : List (BitVec 16)} {last : Trap}
    (returned : trap.addAll calls = .ok (ids, last)) :
    Holds last (enterAll issued (calls.map Call.key)) ∧
      ids = calls.map fun call => idIn (enterAll issued (calls.map Call.key)) call.key := by
  induction calls generalizing trap issued ids with
  | nil =>
    cases returned
    exact ⟨holds, rfl⟩
  | cons call calls ih =>
    rw [Trap.addAll] at returned
    obtain ⟨⟨id, added⟩, adds, returned⟩ := exists_of_bind_eq_ok returned
    obtain ⟨⟨later, final⟩, rest, returned⟩ := exists_of_bind_eq_ok returned
    cases returned
    obtain ⟨addedHolds, rfl⟩ := holds.add adds
    obtain ⟨lastHolds, rfl⟩ := ih addedHolds rest
    apply And.intro lastHolds
    rw [List.map_cons, List.map_cons]
    congr 1
    have member : call.key ∈ enter issued call.key := (mem_enter _ _ _).mpr (.inr rfl)
    obtain ⟨more, grown⟩ := prefix_enterAll (enter issued call.key) (calls.map Call.key)
    change _ = idIn (enterAll (enter issued call.key) (calls.map Call.key)) call.key
    rw [← grown, idIn_append member]

/-- An issued id is the key's place, counted from 1. -/
theorem Holds.toNat_idIn (member : key ∈ issued) :
    (idIn issued key).toNat = issued.idxOf key + 1 := by
  have place : issued.idxOf key + 1 ≤ SECCOMP_RET_DATA := (List.idxOf_lt_length_of_mem member).trans_le holds.few
  have fits : issued.idxOf key + 1 < 2 ^ 16 := Nat.lt_succ_of_le place
  rw [idIn, BitVec.toNat_ofNat, Nat.mod_eq_of_lt fits]

theorem Holds.idIn_eq_iff {other : TrapKey} (member : key ∈ issued)
    (otherMember : other ∈ issued) : idIn issued key = idIn issued other ↔ key = other := by
  rw [← BitVec.toNat_inj, holds.toNat_idIn member, holds.toNat_idIn otherMember, Nat.add_right_cancel_iff]
  exact List.idxOf_inj member

theorem Holds.array_idIn (member : key ∈ issued) :
    trap.trap_array_[(idIn issued key).toNat - 1]? = some key := by
  obtain ⟨spare, array⟩ := holds.serves
  rw [holds.toNat_idIn member, Nat.add_sub_cancel, ← array,
    List.getElem?_append_left (List.idxOf_lt_length_of_mem member), getElem?_idxOf member]

theorem Holds.add_error_iff (call : Call) (fault : Fault) :
    trap.add call = .error fault ↔ ¬call.Allowed ∧ fault = .unsafeTrapsDisabled ∨
      call.Allowed ∧ call.key ∉ issued ∧ issued.length = SECCOMP_RET_DATA ∧ fault = .tooManyTraps := by
  by_cases allowed : call.Allowed
  · by_cases member : call.key ∈ issued
    · rw [holds.add_known allowed member]
      simp [allowed, member]
    · by_cases room : issued.length < SECCOMP_RET_DATA
      · obtain ⟨added, adds, _⟩ := holds.add_fresh allowed member room
        rw [adds]
        simp [allowed, room.ne]
      · have full := Nat.le_antisymm holds.few (Nat.le_of_not_lt room)
        rw [holds.add_full allowed member full]
        simp [allowed, member, full, eq_comm]
  · rw [add_disallowed allowed]
    simp [allowed, eq_comm]

end

/-- Calls return one id exactly for one key; the ids start at 1 and stay within 16 bits; the array holds every
key under its id. A further call fails only when it is not allowed, or when its key is new and no id is left. -/
theorem addAll_numbers_keys {calls : List Call} {ids : List (BitVec 16)} {last : Trap}
    (returned : initial.addAll calls = .ok (ids, last)) :
    ids.length = calls.length ∧
    (∀ id, ids[0]? = some id → id = 1) ∧
    (∀ (i : Nat) (call : Call) (id : BitVec 16), calls[i]? = some call → ids[i]? = some id →
      1 ≤ id.toNat ∧ id.toNat ≤ 65535 ∧ last.trap_array_[id.toNat - 1]? = some call.key ∧
      ∀ (j : Nat) (other : Call) (otherId : BitVec 16), calls[j]? = some other → ids[j]? = some otherId →
        (id = otherId ↔ call.key = other.key)) ∧
    ∀ (call : Call) (fault : Fault), last.add call = .error fault ↔ ¬call.Allowed ∧ fault = .unsafeTrapsDisabled ∨
      call.Allowed ∧ call.key ∉ calls.map Call.key ∧ (calls.map Call.key).toFinset.card = 65535 ∧
        fault = .tooManyTraps := by
  obtain ⟨holds, rfl⟩ := Holds.initial.addAll returned
  have known : ∀ (i : Nat) (call : Call), calls[i]? = some call → call.key ∈ enterAll [] (calls.map Call.key) := by
    intro i call at_
    rw [mem_enterAll]
    exact .inr (List.mem_map_of_mem (List.mem_of_getElem? at_))
  have issuedId : ∀ (i : Nat) (call : Call) (id : BitVec 16), calls[i]? = some call →
      (calls.map fun call => idIn (enterAll [] (calls.map Call.key)) call.key)[i]? = some id →
      id = idIn (enterAll [] (calls.map Call.key)) call.key := by
    intro i call id at_ idAt
    rw [List.getElem?_map, at_] at idAt
    exact (Option.some.inj idAt).symm
  apply And.intro (List.length_map _)
  apply And.intro
  · intro id idAt
    cases calls with
    | nil => cases idAt
    | cons call calls =>
      rw [issuedId 0 call id rfl idAt, ← BitVec.toNat_inj, holds.toNat_idIn (known 0 call rfl)]
      obtain ⟨more, grown⟩ := prefix_enterAll [call.key] (calls.map Call.key)
      change (enterAll [call.key] (calls.map Call.key)).idxOf call.key + 1 = 1
      rw [← grown, List.singleton_append, List.idxOf_cons_self]
  apply And.intro
  · intro i call id at_ idAt
    have member := known i call at_
    rw [issuedId i call id at_ idAt]
    apply And.intro
    · rw [holds.toNat_idIn member]
      exact Nat.le_add_left 1 _
    apply And.intro
    · exact Nat.le_of_lt_succ (idIn _ call.key).isLt
    apply And.intro (holds.array_idIn member)
    intro j other otherId otherAt otherIdAt
    rw [issuedId j other otherId otherAt otherIdAt]
    exact holds.idIn_eq_iff member (known j other otherAt)
  · intro call fault
    rw [holds.add_error_iff, enterAll_length, mem_enterAll]
    simp only [List.not_mem_nil, false_or, SECCOMP_RET_DATA]

theorem addAll_numbers_keys_twice :
    let calls : List Call := [⟨⟨7, 0, true⟩, false⟩, ⟨⟨7, 1, true⟩, false⟩, ⟨⟨7, 0, true⟩, false⟩]
    ∃ last, initial.addAll calls = .ok ([1, 2, 1], last) ∧ last.trap_array_[0]? = some ⟨7, 0, true⟩ ∧
      (last.add ⟨⟨7, 0, false⟩, false⟩ = .error .unsafeTrapsDisabled) := by
  intro calls
  have returned : ∃ last, initial.addAll calls = .ok ([1, 2, 1], last) := ⟨_, rfl⟩
  obtain ⟨last, returned⟩ := returned
  obtain ⟨_, _, each, fails⟩ := addAll_numbers_keys returned
  exact ⟨last, returned, (each 0 _ 1 rfl rfl).2.2.1, (fails _ _).mpr (.inl ⟨by decide, rfl⟩)⟩

end Trap
end Libchrome.SeccompBpf
