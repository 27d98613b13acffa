import Mathlib.Data.List.Basic
import Mathlib.Tactic.Common

/-! A chaining value that absorbs a message block by block, and the buffer that feeds it element by element. -/

namespace Libchrome.Library.Absorbing
variable {σ α : Type}

/-- The chaining value after every whole block of the message; what is left at the end is not absorbed. -/
def absorb (size : Nat) (compress : σ → List α → σ) (chain : σ) (message : List α) : σ :=
  if 0 < size ∧ size ≤ message.length then
    absorb size compress (compress chain (message.take size)) (message.drop size)
  else chain
termination_by message.length
decreasing_by simp only [List.length_drop]; omega

section Absorb
variable {size : Nat} {compress : σ → List α → σ}

theorem absorb_short (chain : σ) {message : List α} (short : message.length < size) :
    absorb size compress chain message = chain := by
  rw [absorb, if_neg]
  omega

theorem absorb_block (chain : σ) {block : List α} (whole : block.length = size) (positive : 0 < size)
    (rest : List α) :
    absorb size compress chain (block ++ rest) = absorb size compress (compress chain block) rest := by
  have enough : size ≤ (block ++ rest).length := by
    rw [List.length_append, whole]
    exact Nat.le_add_right _ _
  rw [absorb, if_pos ⟨positive, enough⟩, List.take_left' whole, List.drop_left' whole]

end Absorb

/-- A chaining value with the elements that do not fill a block yet. -/
structure Buffer (σ α : Type) (size : Nat) where
  chain : σ
  pending : List α
  short : pending.length < size

namespace Buffer
variable {size : Nat} {compress : σ → List α → σ}

/-- One more element; a block that it completes is absorbed at once. -/
def push (compress : σ → List α → σ) (buffer : Buffer σ α size) (element : α) : Buffer σ α size :=
  if room : buffer.pending.length + 1 < size then
    ⟨buffer.chain, buffer.pending ++ [element], by rwa [List.length_append, List.length_singleton]⟩
  else ⟨compress buffer.chain (buffer.pending ++ [element]), [], Nat.zero_lt_of_lt buffer.short⟩

/-- What the chaining value becomes when `rest` follows. -/
def followedBy (compress : σ → List α → σ) (buffer : Buffer σ α size) (rest : List α) : σ :=
  absorb size compress buffer.chain (buffer.pending ++ rest)

theorem push_followedBy (buffer : Buffer σ α size) (element : α) (rest : List α) :
    (buffer.push compress element).followedBy compress rest = buffer.followedBy compress (element :: rest) := by
  have joined : buffer.pending ++ element :: rest = (buffer.pending ++ [element]) ++ rest := by
    rw [List.append_assoc, List.singleton_append]
  unfold push followedBy
  rw [joined]
  split
  next => rfl
  next full =>
    have whole : (buffer.pending ++ [element]).length = size := by
      have short := buffer.short
      rw [List.length_append, List.length_singleton]
      omega
    rw [absorb_block _ whole (Nat.zero_lt_of_lt buffer.short), List.nil_append]

theorem foldl_followedBy (elements : List α) (buffer : Buffer σ α size) (rest : List α) :
    (elements.foldl (push compress) buffer).followedBy compress rest =
      buffer.followedBy compress (elements ++ rest) := by
  induction elements generalizing buffer with
  | nil => rfl
  | cons element elements ih => rw [List.foldl_cons, ih, push_followedBy, List.cons_append]

theorem push_length (buffer : Buffer σ α size) (element : α) :
    (buffer.push compress element).pending.length = (buffer.pending.length + 1) % size := by
  unfold push
  split
  next room => rw [List.length_append, List.length_singleton, Nat.mod_eq_of_lt room]
  next full =>
    have whole : buffer.pending.length + 1 = size := by
      have short := buffer.short
      omega
    rw [whole, Nat.mod_self, List.length_nil]

/-- Only the position in the block shows how much was pushed. -/
theorem foldl_length (elements : List α) (buffer : Buffer σ α size) :
    (elements.foldl (push compress) buffer).pending.length =
      (buffer.pending.length + elements.length) % size := by
  induction elements generalizing buffer with
  | nil => rw [List.foldl_nil, List.length_nil, Nat.add_zero, Nat.mod_eq_of_lt buffer.short]
  | cons element elements ih =>
    rw [List.foldl_cons, ih, push_length, Nat.mod_add_mod, List.length_cons, Nat.add_assoc, Nat.add_comm 1]

end Buffer
end Libchrome.Library.Absorbing
