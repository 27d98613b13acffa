import Libchrome.Library.Audited
import Mathlib.Data.BitVec
import Mathlib.Data.Fin.VecNotation
import Mathlib.Data.Fintype.Basic

/-!
# Field elements of P-224

The field functions of `p224.cc`, on limbs of 28 bits with four bits of headroom. The functions that rely on that
headroom are audited: they note whether a step of theirs wrapped around.
-/

namespace Libchrome.Crypto.P224
open Function Library Audited

/-- `uint32_t[8]`. -/
abbrev FieldElement := Fin 8 → BitVec 32

/-- Limbs are indexed by literals. -/
instance limbs_neZero : NeZero 8 := ⟨Nat.succ_ne_zero 7⟩

/-- `uint64_t[15]`. -/
abbrev LargeFieldElement := Fin 15 → BitVec 64

/-- The prime `2 ** 224 - 2 ** 96 + 1`. -/
def prime : ℕ := 2 ^ 224 - 2 ^ 96 + 1

def kP : FieldElement := ![1, 0, 0, 268431360, 268435455, 268435455, 268435455, 268435455]

def kTwo31p3 : BitVec 32 := 1#32 <<< 31 + 1#32 <<< 3

def kTwo31m3 : BitVec 32 := 1#32 <<< 31 - 1#32 <<< 3

def kTwo31m15m3 : BitVec 32 := 1#32 <<< 31 - 1#32 <<< 15 - 1#32 <<< 3

def kZero31ModP : FieldElement :=
  ![kTwo31p3, kTwo31m3, kTwo31m3, kTwo31m15m3, kTwo31m3, kTwo31m3, kTwo31m3, kTwo31m3]

def kTwo63p35 : BitVec 64 := 1#64 <<< 63 + 1#64 <<< 35

def kTwo63m35 : BitVec 64 := 1#64 <<< 63 - 1#64 <<< 35

def kTwo63m35m19 : BitVec 64 := 1#64 <<< 63 - 1#64 <<< 35 - 1#64 <<< 19

def kZero63ModP : Fin 8 → BitVec 64 :=
  ![kTwo63p35, kTwo63m35, kTwo63m35, kTwo63m35, kTwo63m35m19, kTwo63m35, kTwo63m35, kTwo63m35]

def kBottom28Bits : BitVec 32 := 0xfffffff

/-! ### Sums -/

def add (a b : FieldElement) : Audited FieldElement := each fun i => plus (a i) (b i)

def subtract (a b : FieldElement) : Audited FieldElement := each fun i => do
  let sum ← plus (a i) (kZero31ModP i)
  minus sum (b i)

/-- A loop that shifts every limb. -/
def shiftLeft (a : FieldElement) (count : Nat) : Audited FieldElement := each fun i => shifted (a i) count

/-- The loop `t[i] += t[i] << 1`. -/
def addDouble (t : FieldElement) : Audited FieldElement := each fun i => do
  let double ← shifted (t i) 1
  plus (t i) double

/-- The loop `three_x[i] = x[i] * 3`. -/
def timesThree (x : FieldElement) : Audited FieldElement := each fun i => times (x i) 3

/-! ### Carries -/

/-- A step of a carry chain. -/
def carry (a : FieldElement) (i : Fin 8) : Audited FieldElement := do
  let sum ← plus (a (i + 1)) (a i >>> 28)
  return update (update a (i + 1) sum) i (a i &&& kBottom28Bits)

/-- All ones if the sign bit is set. -/
def signMask (x : BitVec 32) : BitVec 32 := x.sshiftRight 31

/-- `x |= x >> 16` and so on, which gathers all bits in the lowest. -/
def orBits (x : BitVec 32) : BitVec 32 :=
  let x := x ||| x >>> 16
  let x := x ||| x >>> 8
  let x := x ||| x >>> 4
  let x := x ||| x >>> 2
  x ||| x >>> 1

def andBits (x : BitVec 32) : BitVec 32 :=
  let x := x &&& x >>> 16
  let x := x &&& x >>> 8
  let x := x &&& x >>> 4
  let x := x &&& x >>> 2
  x &&& x >>> 1

/-- `(top != 0) ? 0xffffffff : 0` for a top of four bits. -/
def topMask (top : BitVec 32) : BitVec 32 :=
  let mask := top
  let mask := mask ||| mask >>> 2
  let mask := mask ||| mask >>> 1
  signMask (mask <<< 31)

def reduce (a : FieldElement) : Audited FieldElement := do
  let a ← [0, 1, 2, 3, 4, 5, 6].foldlM carry a
  let top := a 7 >>> 28
  let a := update a 7 (a 7 &&& kBottom28Bits)
  let mask := topMask top
  -- `a[0]` may wrap around here, until the carry down makes up for it.
  require (top.toNat ≤ (a 0).toNat + (mask &&& 1#32 <<< 28).toNat)
  let a := update a 0 (a 0 - top)
  let a3 ← plus (a 3) (top <<< 12)
  let a := update a 3 a3
  let a3 ← minus (a 3) (1 &&& mask)
  let a := update a 3 a3
  let a2 ← plus (a 2) (mask &&& (1#32 <<< 28 - 1))
  let a := update a 2 a2
  let a1 ← plus (a 1) (mask &&& (1#32 <<< 28 - 1))
  let a := update a 1 a1
  return update a 0 (a 0 + (mask &&& 1#32 <<< 28))

/-! ### Products -/

/-- A place of a field element as one of a large one. -/
def wide (i : Fin 8) : Fin 15 := i.castLE (by decide)

/-- A step of the elimination of the coefficients at `2 ** 224` and greater. -/
def reflect (large : LargeFieldElement) (i : Fin 15) : Audited LargeFieldElement := do
  let low ← minus (large (i - 8)) (large i)
  let large := update large (i - 8) low
  let middle ← plus (large (i - 5)) ((large i &&& 0xffff) <<< 12)
  let large := update large (i - 5) middle
  let high ← plus (large (i - 4)) (large i >>> 16)
  return update large (i - 4) high

/-- A step of the carry chain that fills `out`. -/
def settle (state : LargeFieldElement × FieldElement) (i : Fin 8) : Audited (LargeFieldElement × FieldElement) := do
  let (large, out) := state
  let sum ← plus (large (wide i + 1)) (large (wide i) >>> 28)
  let large := update large (wide i + 1) sum
  return (large, update out i ((large (wide i) &&& kBottom28Bits.setWidth 64).setWidth 32))

def reduceLarge (large : LargeFieldElement) : Audited FieldElement := do
  let large ← (List.finRange 8).foldlM (fun large i => do
    let sum ← plus (large (wide i)) (kZero63ModP i)
    return update large (wide i) sum) large
  let large ← [14, 13, 12, 11, 10, 9, 8].foldlM reflect large
  let large := update large 8 0
  let (large, out) ← [1, 2, 3, 4, 5, 6, 7].foldlM settle (large, fun _ => 0)
  let in0 ← minus (large 0) (large 8)
  let out3 ← plus (out 3) ((large 8 &&& 0xffff).setWidth 32 <<< 12)
  let out := update out 3 out3
  let out4 ← plus (out 4) ((large 8 >>> 16).setWidth 32)
  let out := update out 4 out4
  let out := update out 0 ((in0 &&& kBottom28Bits.setWidth 64).setWidth 32)
  let out1 ← plus (out 1) (((in0 >>> 28) &&& kBottom28Bits.setWidth 64).setWidth 32)
  let out := update out 1 out1
  let out2 ← plus (out 2) ((in0 >>> 56).setWidth 32)
  return update out 2 out2

def column (i j : Fin 8) : Fin 15 := ⟨i + j, by omega⟩

/-- Every limb is below a bound. -/
def Below (a : FieldElement) (bound : Nat) : Prop := ∀ i, (a i).toNat < bound

instance (a : FieldElement) (bound : Nat) : Decidable (Below a bound) := by
  unfold Below
  infer_instance

/-- `tmp[column] += x`. -/
def accumulate (tmp : LargeFieldElement) (k : Fin 15) (x : BitVec 64) : Audited LargeFieldElement := do
  let sum ← plus (tmp k) x
  return update tmp k sum

def mul (a b : FieldElement) : Audited FieldElement := do
  require (Below a (2 ^ 29) ∧ Below b (2 ^ 30) ∨ Below a (2 ^ 30) ∧ Below b (2 ^ 29))
  let tmp ← (List.finRange 8).foldlM (fun tmp i =>
    (List.finRange 8).foldlM (fun tmp j => do
      let product ← times ((a i).setWidth 64) ((b j).setWidth 64)
      accumulate tmp (column i j) product) tmp) fun _ => 0
  reduceLarge tmp

def square (a : FieldElement) : Audited FieldElement := do
  require (Below a (2 ^ 29))
  let tmp ← (List.finRange 8).foldlM (fun tmp i =>
    ((List.finRange 8).filter (· ≤ i)).foldlM (fun tmp j => do
      let r ← times ((a i).setWidth 64) ((a j).setWidth 64)
      if i = j then accumulate tmp (column i j) r
      else do
        let double ← shifted r 1
        accumulate tmp (column i j) double) tmp) fun _ => 0
  reduceLarge tmp

/-! ### The minimal form -/

/-- A step of a carry down: a negative limb takes from the next. -/
def carryDown (out : FieldElement) (i : Fin 8) : FieldElement :=
  let mask := signMask (out i)
  let out := update out i (out i + (1#32 <<< 28 &&& mask))
  update out (i + 1) (out (i + 1) - (1 &&& mask))

/-- The bits above the topmost limb go back below it. -/
def eliminateTop (out : FieldElement) : FieldElement :=
  let top := out 7 >>> 28
  let out := update out 7 (out 7 &&& kBottom28Bits)
  let out := update out 0 (out 0 - top)
  update out 3 (out 3 + top <<< 12)

/-- Whether to subtract the prime from limbs of 28 bits. -/
def subtractionMask (out : FieldElement) : BitVec 32 :=
  let top_4_all_ones := [4, 5, 6, 7].foldl (fun ones i => ones &&& out i) 0xffffffff
  let top_4_all_ones := andBits (top_4_all_ones ||| 0xf0000000)
  let top_4_all_ones := signMask (top_4_all_ones <<< 31)
  let bottom_3_non_zero := signMask (orBits (out 0 ||| out 1 ||| out 2))
  let n := out 3 - 0xffff000
  let out_3_equal := ~~~(signMask (orBits n <<< 31))
  let out_3_gt := ~~~(signMask (n <<< 31))
  top_4_all_ones &&& ((out_3_equal &&& bottom_3_non_zero) ||| out_3_gt)

def contract (out : FieldElement) : FieldElement :=
  let out := ([0, 1, 2, 3, 4, 5, 6].foldlM carry out).value
  let out := eliminateTop out
  let out := [0, 1, 2].foldl carryDown out
  let out := ([3, 4, 5, 6].foldlM carry out).value
  let out := eliminateTop out
  let out := [0, 1, 2].foldl carryDown out
  let mask := subtractionMask out
  let out := update out 0 (out 0 - (1 &&& mask))
  let out := update out 3 (out 3 - (0xffff000 &&& mask))
  let out := update out 4 (out 4 - (0xfffffff &&& mask))
  let out := update out 5 (out 5 - (0xfffffff &&& mask))
  let out := update out 6 (out 6 - (0xfffffff &&& mask))
  update out 7 (out 7 - (0xfffffff &&& mask))

def isZero (a : FieldElement) : BitVec 32 :=
  let minimal := contract a
  let is_zero := orBits ((List.finRange 8).foldl (fun is_zero i => is_zero ||| minimal i) 0)
  let is_p := orBits ((List.finRange 8).foldl (fun is_p i => is_p ||| (minimal i - kP i)) 0)
  let is_zero := is_zero &&& (is_p &&& 1)
  signMask ((~~~is_zero) <<< 31)

/-!
# Points of P-224

The group functions of `p224.cc`, on Jacobian coordinates. None of them keeps its output in an input it still has to
read, so that outputs are results here.
-/

/-- A point in Jacobian form, `(x / z ^ 2, y / z ^ 3)`. -/
structure Point where
  x : FieldElement
  y : FieldElement
  z : FieldElement

/-- The parameter of the curve. -/
def kB : FieldElement :=
  ![55967668, 11768882, 265861671, 185302395, 39211076, 180311059, 84673715, 188764328]

def kBasePoint : Point where
  x := ![22813985, 52956513, 34677300, 203240812, 12143107, 133374265, 225162431, 191946955]
  y := ![83918388, 223877528, 122119236, 123340192, 266784067, 263504429, 146143011, 198407736]
  z := ![1, 0, 0, 0, 0, 0, 0, 0]

/-- The limbs of `a` if the mask is all ones, those of `out` if it is zero. -/
def copyLimbs (out a : FieldElement) (mask : BitVec 32) : FieldElement := fun i => out i ^^^ (mask &&& (a i ^^^ out i))

def copyConditional (out a : Point) (mask : BitVec 32) : Point where
  x := copyLimbs out.x a.x mask
  y := copyLimbs out.y a.y mask
  z := copyLimbs out.z a.z mask

/-- Subtract, then Reduce. -/
def subtractReduce (a b : FieldElement) : Audited FieldElement := do
  let difference ← subtract a b
  reduce difference

/-- A loop that shifts every limb, then Reduce. -/
def shiftReduce (a : FieldElement) (count : Nat) : Audited FieldElement := do
  let shifted ← shiftLeft a count
  reduce shifted

def doubleJacobian (a : Point) : Audited Point := do
  let delta ← square a.z
  let gamma ← square a.y
  let beta ← mul a.x gamma
  -- alpha = 3 * (X1 - delta) * (X1 + delta)
  let t ← add a.x delta
  let t ← addDouble t
  let t ← reduce t
  let alpha ← subtractReduce a.x delta
  let alpha ← mul alpha t
  -- Z3 = (Y1 + Z1)² - gamma - delta
  let z ← add a.y a.z
  let z ← reduce z
  let z ← square z
  let z ← subtractReduce z gamma
  let z ← subtractReduce z delta
  -- X3 = alpha² - 8 * beta
  let delta ← shiftReduce beta 3
  let x ← square alpha
  let x ← subtractReduce x delta
  -- Y3 = alpha * (4 * beta - X3) - 8 * gamma²
  let beta ← shiftReduce beta 2
  let beta ← subtractReduce beta x
  let gamma ← square gamma
  let gamma ← shiftReduce gamma 3
  let y ← mul alpha beta
  let y ← subtractReduce y gamma
  return { x, y, z }

/-- What `AddJacobian` goes on to do unless the two input points are the same. -/
def addDistinct (a b : Point) (z1_is_zero z2_is_zero : BitVec 32) (z1z1 z2z2 u1 s1 h i j r : FieldElement) :
    Audited Point := do
  let r ← shiftReduce r 1
  -- V = U1 * I
  let v ← mul u1 i
  -- Z3 = ((Z1 + Z2)² - Z1Z1 - Z2Z2) * H
  let z1z1 ← add z1z1 z2z2
  let z2z2 ← add a.z b.z
  let z2z2 ← reduce z2z2
  let z2z2 ← square z2z2
  let z ← subtractReduce z2z2 z1z1
  let z ← mul z h
  -- X3 = r² - J - 2 * V
  let z1z1 ← shiftLeft v 1
  let z1z1 ← add j z1z1
  let z1z1 ← reduce z1z1
  let x ← square r
  let x ← subtractReduce x z1z1
  -- Y3 = r * (V - X3) - 2 * S1 * J
  let s1 ← shiftLeft s1 1
  let s1 ← mul s1 j
  let z1z1 ← subtractReduce v x
  let z1z1 ← mul z1z1 r
  let y ← subtractReduce z1z1 s1
  return copyConditional (copyConditional { x, y, z } a z2_is_zero) b z1_is_zero

def addJacobian (a b : Point) : Audited Point := do
  let z1_is_zero := isZero a.z
  let z2_is_zero := isZero b.z
  let z1z1 ← square a.z
  let z2z2 ← square b.z
  let u1 ← mul a.x z2z2
  let u2 ← mul b.x z1z1
  let s1 ← mul b.z z2z2
  let s1 ← mul a.y s1
  let s2 ← mul a.z z1z1
  let s2 ← mul b.y s2
  -- H = U2 - U1
  let h ← subtractReduce u2 u1
  let x_equal := isZero h
  -- I = (2 * H)²
  let i ← shiftReduce h 1
  let i ← square i
  -- J = H * I
  let j ← mul h i
  -- r = 2 * (S2 - S1)
  let r ← subtractReduce s2 s1
  let y_equal := isZero r
  if x_equal ≠ 0 ∧ y_equal ≠ 0 ∧ z1_is_zero = 0 ∧ z2_is_zero = 0 then doubleJacobian a
  else addDistinct a b z1_is_zero z2_is_zero z1z1 z2z2 u1 s1 h i j r

/-- The mask of a bit of the scalar, the most significant one first. -/
def bitMask (byte : BitVec 8) (bit_num : Nat) : BitVec 32 :=
  signMask ((((byte.setWidth 32) >>> (7 - bit_num)) &&& 1) <<< 31)

def scalarMultStep (a : Point) (byte : BitVec 8) (out : Point) (bit_num : Nat) : Audited Point := do
  let out ← doubleJacobian out
  let tmp ← addJacobian a out
  return copyConditional out tmp (bitMask byte bit_num)

def scalarMult (a : Point) (scalar : List (BitVec 8)) : Audited Point :=
  scalar.foldlM (fun out byte => (List.range 8).foldlM (scalarMultStep a byte) out)
    { x := fun _ => 0, y := fun _ => 0, z := fun _ => 0 }

end Libchrome.Crypto.P224
