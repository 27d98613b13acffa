import Mathlib.Algebra.Ring.Int.Defs
import Mathlib.Algebra.Ring.Nat

/-!
# Arithmetic of `TimeTicks` and `TimeDelta`

Both count microseconds in an `int64_t`. Their sums saturate.
-/

namespace Libchrome.Base

/-- The largest value of an `int64_t`. -/
def int64Max : Int := 2 ^ 63 - 1

/-- `time_internal::SaturatedAdd`: what does not fit becomes the largest value or its negation. -/
def saturatedAdd (delta value : Int) : Int :=
  if delta + value > int64Max then int64Max
  else if delta + value < -int64Max - 1 then -int64Max
  else delta + value

end Libchrome.Base
