import Mathlib.Tactic.Common

/-! Postconditions of computations that may stop at a failed check. -/

namespace Libchrome.Library.Checked
variable {ε α β : Type}

/-- A `CHECK`: the computation goes on only when `condition` holds. -/
def check (condition : Prop) [Decidable condition] (failure : ε) : Except ε Unit :=
  if condition then .ok () else .error failure

/-- A result satisfies `post`, and a failure is one that `fails` admits. -/
def Ensures (fails : ε → Prop) (result : Except ε α) (post : α → Prop) : Prop :=
  match result with
  | .ok value => post value
  | .error failure => fails failure

variable {fails : ε → Prop} {result : Except ε α} {next : α → Except ε β}

theorem Ensures.bind {middle : α → Prop} {post : β → Prop} (first : Ensures fails result middle)
    (rest : ∀ value, middle value → Ensures fails (next value) post) : Ensures fails (result >>= next) post := by
  cases result with
  | error failure => exact first
  | ok value => exact rest value first

theorem Ensures.check {condition : Prop} [Decidable condition] {failure : ε} (admitted : ¬condition → fails failure) :
    Ensures fails (Checked.check condition failure) (fun _ => condition) := by
  unfold Checked.check
  split
  next holds => exact holds
  next broken => exact admitted broken

theorem Ensures.mono {first second : α → Prop} (ensured : Ensures fails result first)
    (weaker : ∀ value, first value → second value) : Ensures fails result second := by
  cases result with
  | error failure => exact ensured
  | ok value => exact weaker value ensured

theorem Ensures.of_ok {post : α → Prop} {value : α} (ensured : Ensures fails result post)
    (returned : result = .ok value) : post value := by
  subst returned
  exact ensured

theorem Ensures.of_error {post : α → Prop} {failure : ε} (ensured : Ensures fails result post)
    (stopped : result = .error failure) : fails failure := by
  subst stopped
  exact ensured

theorem ok_bind (value : α) (next : α → Except ε β) : (Except.ok value >>= next) = next value := rfl

theorem exists_of_bind_eq_ok {value : β} (returned : (result >>= next) = .ok value) :
    ∃ middle, result = .ok middle ∧ next middle = .ok value := by
  cases result with
  | error failure => cases returned
  | ok middle => exact ⟨middle, rfl, returned⟩

theorem bind_eq_error_iff {failure : ε} :
    (result >>= next) = .error failure ↔
      result = .error failure ∨ ∃ value, result = .ok value ∧ next value = .error failure := by
  cases result with
  | error other =>
    constructor
    · intro same
      cases same
      exact .inl rfl
    · intro either
      rcases either with same | ⟨_, same, _⟩
      · cases same
        rfl
      · cases same
  | ok value =>
    constructor
    · exact fun same => .inr ⟨value, rfl, same⟩
    · intro either
      rcases either with same | ⟨_, same, later⟩
      · cases same
      · cases same
        exact later

theorem exists_of_isOk (succeeded : result.isOk = true) : ∃ value, result = .ok value := by
  cases result with
  | error failure => exact Bool.noConfusion succeeded
  | ok value => exact ⟨value, rfl⟩

end Libchrome.Library.Checked
