import Mathlib.Algebra.Group.Int.Defs
import Mathlib.Algebra.Group.Nat.Defs
import Mathlib.Tactic.Common

/-!
# Audited arithmetic

Computations on machine words that note whether every step of theirs was exact, which does not change what they
compute.
-/

namespace Libchrome.Library

structure Audited (α : Type) where
  value : α
  exact : Bool

namespace Audited
variable {α β : Type}

instance : Monad Audited where
  pure value := ⟨value, true⟩
  bind first next := ⟨(next first.value).value, first.exact && (next first.value).exact⟩

/-- The computation has to meet a condition. -/
def require (condition : Bool) : Audited Unit := ⟨(), condition⟩

section Words
variable {w : Nat}

def plus (x y : BitVec w) : Audited (BitVec w) := ⟨x + y, x.toNat + y.toNat < 2 ^ w⟩

def minus (x y : BitVec w) : Audited (BitVec w) := ⟨x - y, y.toNat ≤ x.toNat⟩

def times (x y : BitVec w) : Audited (BitVec w) := ⟨x * y, x.toNat * y.toNat < 2 ^ w⟩

/-- A shift to the left that loses no bits. -/
def shifted (x : BitVec w) (count : Nat) : Audited (BitVec w) := ⟨x <<< count, x.toNat * 2 ^ count < 2 ^ w⟩

end Words

/-- A computation for each place of an array. -/
def each {n : Nat} (f : Fin n → Audited α) : Audited (Fin n → α) := ⟨fun i => (f i).value, decide (∀ i, (f i).exact)⟩

/-- Every step is exact, and the result satisfies `post`. -/
def Meets (result : Audited α) (post : α → Prop) : Prop := result.exact = true ∧ post result.value

theorem Meets.pure {value : α} {post : α → Prop} (holds : post value) : Meets (Pure.pure value) post := ⟨rfl, holds⟩

theorem Meets.bind {first : Audited α} {next : α → Audited β} {middle : α → Prop} {post : β → Prop}
    (meets : first.Meets middle) (rest : ∀ value, middle value → (next value).Meets post) :
    (first >>= next).Meets post := by
  obtain ⟨exact_, holds⟩ := rest first.value meets.2
  exact ⟨Bool.and_eq_true_iff.mpr ⟨meets.1, exact_⟩, holds⟩

theorem Meets.mono {result : Audited α} {first second : α → Prop} (meets : result.Meets first)
    (weaker : ∀ value, first value → second value) : result.Meets second := ⟨meets.1, weaker _ meets.2⟩

theorem Meets.require {condition : Bool} (holds : condition = true) : (require condition).Meets fun _ => True :=
  ⟨holds, trivial⟩

theorem Meets.plus {w : Nat} {x y : BitVec w} (fits : x.toNat + y.toNat < 2 ^ w) :
    (plus x y).Meets fun sum => sum.toNat = x.toNat + y.toNat :=
  ⟨decide_eq_true fits, BitVec.toNat_add_of_lt fits⟩

theorem Meets.minus {w : Nat} {x y : BitVec w} (fits : y.toNat ≤ x.toNat) :
    (minus x y).Meets fun difference => difference.toNat = x.toNat - y.toNat :=
  ⟨decide_eq_true fits, BitVec.toNat_sub_of_le fits⟩

theorem Meets.times {w : Nat} {x y : BitVec w} (fits : x.toNat * y.toNat < 2 ^ w) :
    (times x y).Meets fun product => product.toNat = x.toNat * y.toNat :=
  ⟨decide_eq_true fits, BitVec.toNat_mul_of_lt fits⟩

theorem Meets.shifted {w : Nat} {x : BitVec w} {count : Nat} (fits : x.toNat * 2 ^ count < 2 ^ w) :
    (shifted x count).Meets fun product => product.toNat = x.toNat * 2 ^ count := by
  refine ⟨decide_eq_true fits, ?_⟩
  change (x <<< count).toNat = _
  rw [BitVec.toNat_shiftLeft, Nat.shiftLeft_eq, Nat.mod_eq_of_lt fits]

theorem Meets.each {n : Nat} {f : Fin n → Audited α} {post : Fin n → α → Prop} (meets : ∀ i, (f i).Meets (post i)) :
    (each f).Meets fun values => ∀ i, post i (values i) :=
  ⟨decide_eq_true fun i => (meets i).1, fun i => (meets i).2⟩

/-- A loop keeps an invariant that may depend on the number of steps taken. -/
theorem Meets.foldlM {ι : Type} {list : List ι} {f : β → ι → Audited β} {start : β} (motive : Nat → β → Prop)
    (begins : motive 0 start)
    (step : ∀ (i : Fin list.length) (state : β), motive i state → (f state list[i]).Meets (motive (i + 1))) :
    (list.foldlM f start).Meets (motive list.length) := by
  induction list generalizing motive start with
  | nil => exact Meets.pure begins
  | cons head list ih =>
    rw [List.foldlM_cons]
    apply (step ⟨0, Nat.succ_pos _⟩ start begins).bind
    intro next holds
    exact ih (fun count => motive (count + 1)) holds fun i state =>
      step ⟨i + 1, Nat.succ_lt_succ i.isLt⟩ state

end Audited

end Libchrome.Library
