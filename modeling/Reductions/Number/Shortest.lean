import Reductions.Number.Binary64

/-!
# The shortest decimal of a double

Among the decimals that read back as a given double, the one with the fewest digits, and of those
the nearest. A decimal reads back when it lies in the rounding interval of the double: between the
midpoints to its two neighbours, the midpoints included when the significand is even. On a grid of
powers of ten the only candidates are the two grid points around the number, so each digit count
needs two tests.
-/

namespace Reductions.Shortest

/-- The decimal `digits * 10 ^ exponent`. -/
structure Decimal where
  digits : Nat
  exponent : Int
deriving DecidableEq, Repr

/-- A finite positive number with its rounding interval, as whole multiples of `unit.1 / unit.2`. -/
structure Interval where
  low : Nat
  value : Nat
  high : Nat
  unit : Nat × Nat
  inclusive : Bool
deriving Repr

/-- The rounding interval of a finite double other than zero, in quarters of its last place. Below a
power of two the neighbour is only half as far away. -/
def interval (x : Binary64) : Interval :=
  let m := x.significand
  let q := x.exponent - 2
  let below := if x.fraction = 0 ∧ 1 < x.exponentField then 1 else 2
  { low := 4 * m - below
    value := 4 * m
    high := 4 * m + 2
    unit := Binary64.scaled 1 1 q
    inclusive := m % 2 == 0 }

def Interval.admitsDecimal (i : Interval) (p : Int) (d : Nat) : Bool :=
  let (tn, td) := Binary64.tenPower p
  let point := d * tn * i.unit.2
  let low := i.low * i.unit.1 * td
  let high := i.high * i.unit.1 * td
  if i.inclusive then low ≤ point && point ≤ high else low < point && point < high

/-- No double is below ten to minus this power. -/
def depth : Nat := 400

def Interval.leading (i : Interval) : Int :=
  let whole := i.value * i.unit.1 * Nat.pow 10 depth / i.unit.2
  ((Nat.toDigits 10 whole).length : Int) - 1 - depth

/-- The best decimal with `n` digits, if one reads back. An exact tie goes to the larger one. -/
def Interval.withDigits? (i : Interval) (n : Nat) : Option Decimal :=
  let p := i.leading - n + 1
  let (tn, td) := Binary64.tenPower p
  let num := i.value * i.unit.1 * td
  let den := i.unit.2 * tn
  let d := num / den
  match i.admitsDecimal p d, i.admitsDecimal p (d + 1) with
  | true, true => some ⟨if 2 * (num % den) < den then d else d + 1, p⟩
  | true, false => some ⟨d, p⟩
  | false, true => some ⟨d + 1, p⟩
  | false, false => none

/-- Seventeen digits tell all doubles apart. -/
def mostDigits : Nat := 17

/-- The shortest decimal of a finite double other than zero, taken without its sign. -/
def decimal (x : Binary64) : Decimal :=
  let i := interval x
  ((List.range' 1 mostDigits).findSome? i.withDigits?).getD ⟨0, 0⟩

end Reductions.Shortest
