/-!
# Binary64 numbers

`Binary64` is a floating-point number of IEEE 754, given by its 64 bits, so that equality of numbers is equality of bits and
every operation is arithmetic on naturals and integers. `Binary64.compare?` is the numeric comparison, which a NaN has with no
number. `Binary64.ofRatio` rounds a ratio of naturals to the nearest number, a tie to the even one; products, quotients and
integers are computed exactly and rounded once by it.
-/

namespace EntityGraph

/-- A floating-point number in the binary64 format, by its bits. -/
structure Binary64 where
  bits : UInt64
deriving DecidableEq, Repr

namespace Binary64

/-- The sign bit. -/
def isNegative (x : Binary64) : Bool := decide (Nat.pow 2 63 ≤ x.bits.toNat)

/-- The bits below the sign, which order the absolute values. -/
def magnitude (x : Binary64) : Nat := x.bits.toNat % Nat.pow 2 63

/-- The magnitude of the infinities: above it are the NaNs, below it the finite numbers. -/
def infiniteMagnitude : Nat := 0x7ff * Nat.pow 2 52

def isNaN (x : Binary64) : Bool := decide (infiniteMagnitude < x.magnitude)

def isFinite (x : Binary64) : Bool := decide (x.magnitude < infiniteMagnitude)

/-- The number with the given sign and magnitude. -/
def ofMagnitude (negative : Bool) (magnitude : Nat) : Binary64 :=
  ⟨UInt64.ofNat (if negative then Nat.pow 2 63 + magnitude else magnitude)⟩

def zero (negative : Bool) : Binary64 := ofMagnitude negative 0

def infinity (negative : Bool) : Binary64 := ofMagnitude negative infiniteMagnitude

def nan : Binary64 := ofMagnitude false (infiniteMagnitude + Nat.pow 2 51)

/-- The number with the other sign. -/
def neg (x : Binary64) : Binary64 := ofMagnitude (!x.isNegative) x.magnitude

/-! ## Order -/

/-- The place of a number in the numeric order: both zeros have the rank `0`, and the numbers below zero come in the reverse
order of their magnitudes. -/
def rank (x : Binary64) : Int := if x.isNegative then -(x.magnitude : Int) else x.magnitude

/-- The numeric comparison. A NaN compares with nothing. -/
def compare? (x y : Binary64) : Option Ordering :=
  if x.isNaN || y.isNaN then none else some (compare x.rank y.rank)

/-- Numeric equality: the two zeros are equal, and a NaN equals nothing, itself included. -/
def numEq (x y : Binary64) : Bool := x.compare? y == some .eq

/-! ## Finite numbers as ratios -/

/-- The integral significand of a finite number, whose absolute value is `significand * 2 ^ exponent`. -/
def significand (x : Binary64) : Nat :=
  if x.magnitude < Nat.pow 2 52 then x.magnitude else x.magnitude % Nat.pow 2 52 + Nat.pow 2 52

/-- The exponent of the last place of a finite number. -/
def exponent (x : Binary64) : Int :=
  if x.magnitude < Nat.pow 2 52 then -1074 else (x.magnitude / Nat.pow 2 52 : Nat) - 1075

/-- The ratio `num / den / 2 ^ e` as a pair of naturals. -/
def shifted (num den : Nat) (e : Int) : Nat × Nat := (num * Nat.pow 2 (-e).toNat, den * Nat.pow 2 e.toNat)

/-- The absolute value of a finite number, as a pair of naturals. -/
def toRatio (x : Binary64) : Nat × Nat := shifted x.significand 1 (-x.exponent)

/-! ## Rounding -/

/-- The natural nearest to `num / den`, a tie to the even one. -/
def roundQuotient (num den : Nat) : Nat :=
  let q := num / den
  let r := num % den
  if den < 2 * r ∨ (2 * r = den ∧ q % 2 = 1) then q + 1 else q

/-- The number nearest to `num / den` with the given sign, a tie to the even significand. From halfway between the greatest
finite number and the next power of two on, that is an infinity. -/
def ofRatio (negative : Bool) (num den : Nat) : Binary64 :=
  if num = 0 then zero negative
  else
    -- at this exponent the scaled ratio lies between 2^52 and 2^54, so it has 53 or 54 binary digits
    let low : Int := (num.log2 : Int) - den.log2 - 53
    let atLow := shifted num den low
    let e := max (-1074) (if Nat.pow 2 53 * atLow.2 ≤ atLow.1 then low + 1 else low)
    let scaled := shifted num den e
    -- a significand rounded up to the next power of two carries into the exponent
    ofMagnitude negative (min infiniteMagnitude ((e + 1074).toNat * Nat.pow 2 52 + roundQuotient scaled.1 scaled.2))

def ofNat (n : Nat) : Binary64 := ofRatio false n 1

/-- The number nearest to an integer, a tie to the even significand. -/
def ofInt (n : Int) : Binary64 := ofRatio (decide (n < 0)) n.natAbs 1

/-- The rounded product of two finite numbers. -/
def mul (x y : Binary64) : Binary64 :=
  ofRatio (x.isNegative != y.isNegative) (x.toRatio.1 * y.toRatio.1) (x.toRatio.2 * y.toRatio.2)

/-- The rounded quotient of a finite number by a finite number other than zero. -/
def div (x y : Binary64) : Binary64 :=
  ofRatio (x.isNegative != y.isNegative) (x.toRatio.1 * y.toRatio.2) (x.toRatio.2 * y.toRatio.1)

end Binary64

end EntityGraph
