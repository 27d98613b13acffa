import Mathlib.Algebra.Group.Int.Defs
import Mathlib.Algebra.Group.Hom.Defs
import Mathlib.Algebra.BigOperators.Group.List.Basic
import Mathlib.Algebra.Order.Ring.Int

/-!
# Reports of growth

A value that grows is reported by its changes: a report hands out what was added since the last one,
unless the size of that is not positive. Where each growth has a positive size, the reports add up to
the value that was logged last.
-/

namespace Libchrome.Library

/-- A value, what it was at the last report, and the changes handed out so far. -/
structure Account (A : Type*) where
  value : A
  logged : Option A := none
  reported : List A := []

namespace Account

variable {A : Type*} [AddCommGroup A] {size : A →+ ℤ} {account : Account A}

def grow (account : Account A) (growth : A) : Account A :=
  { account with value := account.value + growth }

/-- What was added since the last report. -/
def delta (account : Account A) : A :=
  account.value - account.logged.getD 0

def report (size : A →+ ℤ) (account : Account A) : Account A where
  value := account.value
  logged := some account.value
  reported := if 0 < size account.delta then account.reported ++ [account.delta] else account.reported

/-- The reports add up to what was logged, which is still the value unless the size has grown. -/
structure Settled (size : A →+ ℤ) (account : Account A) : Prop where
  sum_reported : account.reported.sum = account.logged.getD 0
  grown : account.value = account.logged.getD 0 ∨ size (account.logged.getD 0) < size account.value

theorem Settled.empty : Settled size (⟨0, none, []⟩ : Account A) where
  sum_reported := rfl
  grown := .inl rfl

theorem Settled.grow (settled : Settled size account) {growth : A} (positive : 0 < size growth) :
    Settled size (account.grow growth) where
  sum_reported := settled.sum_reported
  grown := by
    right
    rw [Account.grow, map_add]
    rcases settled.grown with same | grown
    · rw [same]
      exact lt_add_of_pos_right _ positive
    · exact lt_add_of_lt_of_pos grown positive

theorem Settled.delta_eq_zero (settled : Settled size account) (small : ¬ 0 < size account.delta) :
    account.delta = 0 := by
  rcases settled.grown with same | grown
  · rw [delta, same, sub_self]
  · rw [delta, map_sub] at small
    exact absurd (sub_pos.mpr grown) small

theorem Settled.report (settled : Settled size account) : Settled size (account.report size) where
  sum_reported := by
    simp only [Account.report, Option.getD_some]
    have sum : account.reported.sum + account.delta = account.value := by
      rw [settled.sum_reported, delta, add_sub_cancel]
    split
    next => rw [List.sum_append, List.sum_singleton, sum]
    next small => rw [← sum, settled.delta_eq_zero small, add_zero]
  grown := .inl rfl

end Account

end Libchrome.Library
