import Mathlib.Data.Finset.Insert
import Mathlib.Data.Finset.Erase
import Mathlib.Logic.Function.Basic

/-!
# Leases: tokens that at most one party holds

A set of the tokens that are taken, kept beside the parties that take and return them. While a token
is only taken when it is not in the set, no two parties hold the same one.
-/

namespace Libchrome.Library

variable {Party Token : Type*} [DecidableEq Party] [DecidableEq Token]

/-- No token is held twice, and the set has the tokens that are held. -/
structure Leased (holding : Party → Option Token) (taken : Finset Token) : Prop where
  exclusive : ∀ i j token, holding i = some token → holding j = some token → i = j
  exact : ∀ token, token ∈ taken ↔ ∃ i, holding i = some token

variable {holding : Party → Option Token} {taken : Finset Token} {i : Party} {token : Token}

/-- A party without a token takes one that is free. -/
theorem Leased.take (leased : Leased holding taken) (idle : holding i = none) (free : token ∉ taken) :
    Leased (Function.update holding i (some token)) (insert token taken) := by
  have unheld : ∀ j, holding j ≠ some token := fun j held => free ((leased.exact token).mpr ⟨j, held⟩)
  constructor
  · intro j k other first second
    by_cases isFirst : j = i
    · by_cases isSecond : k = i
      · rw [isFirst, isSecond]
      · rw [isFirst, Function.update_self] at first
        rw [Function.update_of_ne isSecond, ← first] at second
        exact (unheld k second).elim
    · rw [Function.update_of_ne isFirst] at first
      by_cases isSecond : k = i
      · rw [isSecond, Function.update_self] at second
        rw [← second] at first
        exact (unheld j first).elim
      · rw [Function.update_of_ne isSecond] at second
        exact leased.exclusive j k other first second
  · intro other
    rw [Finset.mem_insert, leased.exact]
    constructor
    · rintro (rfl | ⟨j, held⟩)
      · exact ⟨i, Function.update_self i _ _⟩
      · have different : j ≠ i := fun same => by simp [same, idle] at held
        exact ⟨j, by rw [Function.update_of_ne different, held]⟩
    · rintro ⟨j, held⟩
      by_cases same : j = i
      · rw [same, Function.update_self] at held
        exact .inl (Option.some.inj held).symm
      · rw [Function.update_of_ne same] at held
        exact .inr ⟨j, held⟩

/-- A party returns the token it holds. -/
theorem Leased.drop (leased : Leased holding taken) (held : holding i = some token) :
    Leased (Function.update holding i none) (taken.erase token) := by
  constructor
  · intro j k other first second
    have notFirst : j ≠ i := fun same => by simp [same] at first
    have notSecond : k ≠ i := fun same => by simp [same] at second
    rw [Function.update_of_ne notFirst] at first
    rw [Function.update_of_ne notSecond] at second
    exact leased.exclusive j k other first second
  · intro other
    rw [Finset.mem_erase, leased.exact]
    constructor
    · rintro ⟨different, j, holds⟩
      have notParty : j ≠ i := by
        rintro rfl
        rw [held] at holds
        exact different (Option.some.inj holds).symm
      exact ⟨j, by rw [Function.update_of_ne notParty, holds]⟩
    · rintro ⟨j, holds⟩
      have notParty : j ≠ i := fun same => by simp [same] at holds
      rw [Function.update_of_ne notParty] at holds
      refine ⟨?_, j, holds⟩
      rintro rfl
      exact notParty (leased.exclusive j i other holds held)

end Libchrome.Library
