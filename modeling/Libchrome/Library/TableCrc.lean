/-!
# Table-driven checksums

A running value of `w` bits takes in a byte at a time: the byte selects a word of the table, and the rest of
the value moves down. Such a step forgets nothing when the top bytes of the table's words are distinct.
-/

namespace Libchrome.Library.TableCrc

variable {w : Nat} (table : BitVec 8 → BitVec w)

/-- The position in the table. -/
def index (sum : BitVec w) (byte : BitVec 8) : BitVec 8 :=
  sum.setWidth 8 ^^^ byte

def step (sum : BitVec w) (byte : BitVec 8) : BitVec w :=
  table (index sum byte) ^^^ sum >>> 8

def run (sum : BitVec w) (bytes : List (BitVec 8)) : BitVec w :=
  bytes.foldl (step table) sum

/-- The top bytes of the words of the table are distinct. -/
def TopsDistinct : Prop :=
  ∀ i j, table i >>> (w - 8) = table j >>> (w - 8) → i = j

/-- A value is its lowest byte and the rest. -/
theorem eq_of_bytes {x y : BitVec w} (low : x.setWidth 8 = y.setWidth 8) (rest : x >>> 8 = y >>> 8) : x = y := by
  apply BitVec.eq_of_getLsbD_eq
  intro i within
  by_cases lowest : i < 8
  · have bit := congrArg (·.getLsbD i) low
    simpa [lowest] using bit
  · have bit := congrArg (·.getLsbD (i - 8)) rest
    simpa [show 8 + (i - 8) = i by omega] using bit

variable {table} {s s' : BitVec w} {b b' : BitVec 8}

/-- The top byte of a result tells the word that was selected, and the bytes between are the old value's. -/
theorem step_back (distinct : TopsDistinct table) {k : Nat} (room : 8 * (k + 1) ≤ w)
    (same : step table s b >>> (8 * k) = step table s' b' >>> (8 * k)) :
    index s b = index s' b' ∧ s >>> (8 * (k + 1)) = s' >>> (8 * (k + 1)) := by
  have gone (x : BitVec w) : x >>> 8 >>> (w - 8) = 0 := by
    rw [← BitVec.shiftRight_add]
    exact BitVec.ushiftRight_eq_zero (by omega)
  have tops (x : BitVec w) (c : BitVec 8) :
      step table x c >>> (8 * k) >>> (w - 8 - 8 * k) = table (index x c) >>> (w - 8) := by
    rw [← BitVec.shiftRight_add, show 8 * k + (w - 8 - 8 * k) = w - 8 by omega, step,
      BitVec.ushiftRight_xor_distrib, gone]
    exact BitVec.xor_zero
  have selected : index s b = index s' b' := by
    apply distinct
    rw [← tops s b, same, tops]
  refine ⟨selected, ?_⟩
  rw [step, step, selected, BitVec.ushiftRight_xor_distrib, BitVec.ushiftRight_xor_distrib,
    ← BitVec.shiftRight_add, ← BitVec.shiftRight_add] at same
  rw [show 8 * (k + 1) = 8 + 8 * k by omega]
  exact (BitVec.xor_right_inj _).mp same

theorem step_injective (distinct : TopsDistinct table) (room : 8 ≤ w) (same : step table s b = step table s' b) :
    s = s' := by
  have whole : step table s b >>> (8 * 0) = step table s' b >>> (8 * 0) := by rw [same]
  obtain ⟨selected, rest⟩ := step_back distinct room whole
  exact eq_of_bytes ((BitVec.xor_left_inj _).mp selected) rest

theorem run_injective (distinct : TopsDistinct table) (room : 8 ≤ w) :
    ∀ (bytes : List (BitVec 8)) (s s' : BitVec w), run table s bytes = run table s' bytes → s = s'
  | [], _, _, same => same
  | _ :: bytes, _, _, same => step_injective distinct room (run_injective distinct room bytes _ _ same)

/-- As long as the value is not shifted out, what a run leaves of it is known from the result. -/
theorem run_back (distinct : TopsDistinct table) :
    ∀ (bytes bytes' : List (BitVec 8)) (s s' : BitVec w), bytes.length = bytes'.length →
      8 * bytes.length ≤ w → run table s bytes = run table s' bytes' →
        s >>> (8 * bytes.length) = s' >>> (8 * bytes.length)
  | [], [], _, _, _, _, same => same
  | _ :: bytes, _ :: bytes', _, _, lengths, room, same =>
    have before := run_back distinct bytes bytes' _ _ (Nat.succ.inj lengths)
      (Nat.le_trans (Nat.mul_le_mul_left 8 (Nat.le_succ _)) room) same
    (step_back distinct room before).2

/-- A run over no more bytes than the value has is injective in the bytes. -/
theorem run_bytes_injective (distinct : TopsDistinct table) :
    ∀ (bytes bytes' : List (BitVec 8)) (s : BitVec w), bytes.length = bytes'.length →
      8 * bytes.length ≤ w → run table s bytes = run table s bytes' → bytes = bytes'
  | [], [], _, _, _, _ => rfl
  | b :: bytes, b' :: bytes', s, lengths, room, same => by
    have shorter : 8 * bytes.length ≤ w := Nat.le_trans (Nat.mul_le_mul_left 8 (Nat.le_succ _)) room
    have before := run_back distinct bytes bytes' _ _ (Nat.succ.inj lengths) shorter same
    have first : b = b' := (BitVec.xor_right_inj _).mp (step_back distinct room before).1
    subst first
    rw [run_bytes_injective distinct bytes bytes' _ (Nat.succ.inj lengths) shorter same]

end Libchrome.Library.TableCrc
