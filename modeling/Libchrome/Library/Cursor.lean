import Mathlib.Data.List.Basic
import Mathlib.Tactic.Common

/-! A text in memory, read at positions that may lie behind its end. -/

namespace Libchrome.Library.Cursor

/-- A text and what lies behind it. -/
structure Buffer (α : Type) where
  text : List α
  beyond : Nat → α

variable {α : Type} (buffer : Buffer α)

namespace Buffer

def read (i : Nat) : α := buffer.text[i]?.getD (buffer.beyond (i - buffer.text.length))

theorem read_end : buffer.read buffer.text.length = buffer.beyond 0 := by
  rw [read, List.getElem?_eq_none (Nat.le_refl _), Option.getD_none, Nat.sub_self]

variable {buffer} {i : Nat} {c : α} {rest : List α}

theorem lt_of_drop (drop : buffer.text.drop i = c :: rest) : i < buffer.text.length := by
  by_contra outside
  rw [List.drop_eq_nil_of_le (Nat.le_of_not_lt outside)] at drop
  cases drop

theorem read_of_drop (drop : buffer.text.drop i = c :: rest) : buffer.read i = c := by
  have first := congrArg (fun bytes => bytes[0]?) drop
  simp only [List.getElem?_drop, Nat.add_zero, List.getElem?_cons_zero] at first
  rw [read, first, Option.getD_some]

theorem drop_add_of_drop {front : List α} (drop : buffer.text.drop i = front ++ rest) :
    buffer.text.drop (i + front.length) = rest := by
  rw [← List.drop_drop, drop, List.drop_left]

theorem drop_succ (drop : buffer.text.drop i = c :: rest) : buffer.text.drop (i + 1) = rest :=
  drop_add_of_drop (show buffer.text.drop i = [c] ++ rest from drop)

theorem length_of_drop {bytes : List α} (drop : buffer.text.drop i = bytes) :
    bytes.length = buffer.text.length - i := by
  rw [← drop, List.length_drop]

/-- The end of the text is reached from within just there. -/
theorem eq_length_of_drop (drop : buffer.text.drop i = []) (inside : i ≤ buffer.text.length) :
    i = buffer.text.length := by
  have outside := List.drop_eq_nil_iff.mp drop
  omega

end Buffer

end Libchrome.Library.Cursor
