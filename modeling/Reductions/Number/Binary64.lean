/-!
# Binary floating-point numbers

A double-precision number is kept as its 64 bits, so two numbers are equal here exactly when their
bits are: a NaN equals itself and the two zeros differ. Equality in the sense of arithmetic is
`Binary64.same`. Nothing in the library calculates with these numbers; it stores, compares, reads
and writes them.
-/

namespace Reductions

/-- An IEEE 754 double, by its bits. -/
structure Binary64 where
  bits : UInt64
deriving DecidableEq, Repr, Inhabited

namespace Binary64

def signBit : Nat := 0x8000000000000000

/-- The weight of the lowest exponent bit, which is also that of the leading bit of a significand.
-/
def leadingBit : Nat := 0x10000000000000

def isNegative (x : Binary64) : Bool :=
  signBit ≤ x.bits.toNat

/-- The bits below the sign. They order the magnitudes. -/
def magnitude (x : Binary64) : Nat :=
  x.bits.toNat % signBit

def exponentField (x : Binary64) : Nat :=
  x.magnitude / leadingBit

def fraction (x : Binary64) : Nat :=
  x.magnitude % leadingBit

/-- The exponent field of the infinities and of every NaN. -/
def specialField : Nat := 2047

def isFinite (x : Binary64) : Bool :=
  x.exponentField < specialField

def isInfinite (x : Binary64) : Bool :=
  x.exponentField == specialField && x.fraction == 0

def isNaN (x : Binary64) : Bool :=
  x.exponentField == specialField && x.fraction != 0

def isZero (x : Binary64) : Bool :=
  x.magnitude == 0

/-- Equality of arithmetic: a NaN differs from everything, the two zeros agree. -/
def same (x y : Binary64) : Bool :=
  !x.isNaN && !y.isNaN && (x == y || x.isZero && y.isZero)

/-- The least exponent of a unit in the last place. -/
def leastExponent : Int := -1074

def significand (x : Binary64) : Nat :=
  if x.exponentField = 0 then x.fraction else leadingBit + x.fraction

/-- A finite magnitude is `significand * 2 ^ exponent`. -/
def exponent (x : Binary64) : Int :=
  leastExponent + (max x.exponentField 1 - 1 : Nat)

def ofMagnitude (negative : Bool) (magnitude : Nat) : Binary64 :=
  ⟨UInt64.ofNat ((if negative then signBit else 0) + magnitude)⟩

def infinity (negative : Bool) : Binary64 :=
  ofMagnitude negative (specialField * leadingBit)

def quietNaN (negative : Bool) : Binary64 :=
  ofMagnitude negative (specialField * leadingBit + leadingBit / 2)

def zero : Binary64 := ⟨0⟩

def one : Binary64 := ⟨0x3ff0000000000000⟩

/-! ## Rounding -/

/-- The quotient rounded to the nearest whole number, a half to the even one. -/
def roundToEven (num den : Nat) : Nat :=
  let quotient := num / den
  let twice := 2 * (num % den)
  if twice < den then quotient
  else if den < twice then quotient + 1
  else quotient + quotient % 2

/-- `num / den * 2 ^ shift` as a fraction. -/
def scaled (num den : Nat) (shift : Int) : Nat × Nat :=
  (num <<< shift.toNat, den <<< (-shift).toNat)

def tenPower (exponent : Int) : Nat × Nat :=
  (Nat.pow 10 exponent.toNat, Nat.pow 10 (-exponent).toNat)

/-- The exponent of the last place of the double nearest to a positive fraction. -/
def placeOf (num den : Nat) : Int :=
  let guess : Int := (Nat.log2 num : Int) - Nat.log2 den - 52
  let (n, d) := scaled num den (-guess)
  max leastExponent (if n < leadingBit * d then guess - 1 else guess)

/-- The double nearest to a fraction, ties to the even significand, overflow to infinity. -/
def ofFraction (negative : Bool) (num den : Nat) : Binary64 :=
  if num = 0 then ofMagnitude negative 0
  else
    let place := placeOf num den
    let (n, d) := scaled num den (-place)
    let magnitude := (place - leastExponent).toNat * leadingBit + roundToEven n d
    ofMagnitude negative (min magnitude (specialField * leadingBit))

def ofInt (n : Int) : Binary64 :=
  ofFraction (n < 0) n.natAbs 1

/-- Beyond this decimal exponent of the leading digit every number is infinite or zero. -/
def decimalReach : Int := 400

def ofDecimal (negative : Bool) (digits : Nat) (exponent : Int) : Binary64 :=
  let leading := exponent + (Nat.toDigits 10 digits).length
  if digits = 0 ∨ leading < -decimalReach then ofMagnitude negative 0
  else if decimalReach < leading then infinity negative
  else
    let (n, d) := tenPower exponent
    ofFraction negative (digits * n) d

end Binary64

end Reductions
