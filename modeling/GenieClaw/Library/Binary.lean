import Mathlib.Algebra.Group.Nat.Defs
import Mathlib.Data.Nat.Log

/-!
# Numbers of a fixed width

Sums that stop at the greatest number of their width, and IEEE 754 values by their bits. A
single- or double-precision value is its bit pattern. The order of two values that
are not NaN is the order of their bits read as sign and magnitude. Rounding to double
precision is round to nearest, ties to even, of an exact ratio of natural numbers.
-/

namespace GenieClaw.Library

/-- `saturating_add` of the numbers up to a bound. -/
def saturatingAdd (bound a b : Nat) : Nat := min (a + b) bound

theorem saturatingAdd_le (bound a b : Nat) : saturatingAdd bound a b ≤ bound := Nat.min_le_right _ _

/-- The quotient to the nearest whole number, ties to even. -/
def halfEven (num den : Nat) : Nat :=
  let q := num / den
  let r := num % den
  if den < 2 * r ∨ (2 * r = den ∧ q % 2 = 1) then q + 1 else q

structure F32 where
  bits : BitVec 32
deriving DecidableEq

namespace F32

def magnitude (x : F32) : Nat := x.bits.toNat % 2 ^ 31

def isNaN (x : F32) : Bool := decide (0x7F800000 < x.magnitude)

def isFinite (x : F32) : Bool := decide (x.magnitude < 0x7F800000)

/-- The position of a value that is not NaN in the numeric order; both zeros sit at 0. -/
def rank (x : F32) : Int := if x.bits.msb then -(x.magnitude : Int) else x.magnitude

/-- `<` is false as soon as one side is NaN. -/
def lt (x y : F32) : Bool := !x.isNaN && !y.isNaN && decide (x.rank < y.rank)

/-- `f32::max` returns the other operand when one is NaN. -/
def max (x y : F32) : F32 := if x.isNaN then y else if x.lt y then y else x

/-- A finite value without its sign, as an exact ratio. -/
def toRatio (x : F32) : Nat × Nat :=
  let exponent := x.bits.toNat / 2 ^ 23 % 2 ^ 8
  let fraction := x.bits.toNat % 2 ^ 23
  if exponent = 0 then (fraction, 2 ^ 149)
  else if exponent < 150 then (2 ^ 23 + fraction, 2 ^ (150 - exponent))
  else ((2 ^ 23 + fraction) * 2 ^ (exponent - 150), 1)

/-- The text `{:.2}` prints: the exact value to two decimals, ties to even. -/
def fixed2 (x : F32) : String :=
  if x.isNaN then "NaN"
  else
    let sign := if x.bits.msb then "-" else ""
    if !x.isFinite then sign ++ "inf"
    else
      let (num, den) := x.toRatio
      let hundredths := halfEven (num * 100) den
      let cents := hundredths % 100
      sign ++ (hundredths / 100).repr ++ (if cents < 10 then ".0" else ".") ++ cents.repr

end F32

structure F64 where
  bits : BitVec 64
deriving DecidableEq

namespace F64

def magnitude (x : F64) : Nat := x.bits.toNat % 2 ^ 63

def isNaN (x : F64) : Bool := decide (0x7FF0000000000000 < x.magnitude)

def isFinite (x : F64) : Bool := decide (x.magnitude < 0x7FF0000000000000)

/-- `==`: NaN equals nothing, the two zeros are equal. -/
def eq (x y : F64) : Bool :=
  !x.isNaN && !y.isNaN && (x.bits == y.bits || (x.magnitude == 0 && y.magnitude == 0))

/-- The binary exponent of `num / den`, at least that of the subnormals. -/
def exponentOf (num den : Nat) : Int :=
  let e : Int := (Nat.log 2 num : Int) - Nat.log 2 den
  let fits := if 0 ≤ e then den * 2 ^ e.toNat ≤ num else den ≤ num * 2 ^ (-e).toNat
  Max.max (if fits then e else e - 1) (-1022)

/-- Nearest double to `num / den`. The hidden bit of the significand, added below the
exponent field, carries into it, so a significand that rounds up to the next power of
two and a subnormal one need no case of their own. -/
def ofRatio (num den : Nat) : F64 :=
  if num = 0 then ⟨0⟩
  else
    let e := exponentOf num den
    let shift := 52 - e
    let m := if 0 ≤ shift then halfEven (num * 2 ^ shift.toNat) den
      else halfEven num (den * 2 ^ (-shift).toNat)
    let bits := (e + 1022).toNat * 2 ^ 52 + m
    ⟨BitVec.ofNat 64 (if bits < 0x7FF0000000000000 then bits else 0x7FF0000000000000)⟩

def ofNat (n : Nat) : F64 := ofRatio n 1

def neg (x : F64) : F64 := ⟨x.bits ^^^ (1#64 <<< 63)⟩

/-- A finite value without its sign, as an exact ratio. -/
def toRatio (x : F64) : Nat × Nat :=
  let exponent := x.bits.toNat / 2 ^ 52 % 2 ^ 11
  let fraction := x.bits.toNat % 2 ^ 52
  if exponent = 0 then (fraction, 2 ^ 1074)
  else if exponent < 1075 then (2 ^ 52 + fraction, 2 ^ (1075 - exponent))
  else ((2 ^ 52 + fraction) * 2 ^ (exponent - 1075), 1)

/-- Product with a natural number, for a value that is not negative. -/
def mulNat (x : F64) (n : Nat) : F64 := ofRatio (x.toRatio.1 * n) x.toRatio.2

/-- Quotient by a positive natural number, for a value that is not negative. -/
def divNat (x : F64) (n : Nat) : F64 := ofRatio x.toRatio.1 (x.toRatio.2 * n)

end F64

/-!
## The order of doubles

Comparisons and differences by the bits of a double.
-/

namespace F64

/-- The position of a value that is not NaN in the numeric order; both zeros sit at 0. -/
def rank (x : F64) : Int := if x.bits.msb then -(x.magnitude : Int) else x.magnitude

/-- `<` and `<=` are false as soon as one side is NaN. -/
def lt (x y : F64) : Bool := !x.isNaN && !y.isNaN && decide (x.rank < y.rank)

/-- Difference of two finite values; a difference of zero has no sign. -/
def sub (x y : F64) : F64 :=
  let a := x.toRatio.1 * y.toRatio.2
  let b := y.toRatio.1 * x.toRatio.2
  let size := if x.bits.msb = y.bits.msb then (a - b) + (b - a) else a + b
  let distance := ofRatio size (x.toRatio.2 * y.toRatio.2)
  if x.lt y then distance.neg else distance

def abs (x : F64) : F64 := if x.bits.msb then x.neg else x

/-- Quotient of two values that are not negative, by one that is not zero. -/
def div (x y : F64) : F64 :=
  ofRatio (x.toRatio.1 * y.toRatio.2) (x.toRatio.2 * y.toRatio.1)

end F64

end GenieClaw.Library
