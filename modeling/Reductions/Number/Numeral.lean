/-!
# Numerals

Whole numbers in decimal and hexadecimal: how they are written, and how a text is read back. A
reader takes the whole text or nothing; it knows no blanks and no digit separators.
-/

namespace Reductions.Numeral

def ofNat (n : Nat) : List Char :=
  Nat.toDigits 10 n

def ofInt (n : Int) : List Char :=
  if n < 0 then '-' :: ofNat n.natAbs else ofNat n.natAbs

def hexOfNat (n : Nat) : List Char :=
  Nat.toDigits 16 n

/-- The value of a digit in any base up to sixteen; letters may be of either case. -/
def digitValue? (c : Char) : Option Nat :=
  if '0' ≤ c ∧ c ≤ '9' then some (c.toNat - '0'.toNat)
  else if 'a' ≤ c ∧ c ≤ 'f' then some (c.toNat - 'a'.toNat + 10)
  else if 'A' ≤ c ∧ c ≤ 'F' then some (c.toNat - 'A'.toNat + 10)
  else none

def pushDigit? (base : Nat) (value : Nat) (c : Char) : Option Nat :=
  match digitValue? c with
  | some d => if d < base then some (value * base + d) else none
  | none => none

def toNat? (base : Nat) : List Char → Option Nat
  | [] => none
  | cs => cs.foldlM (pushDigit? base) 0

/-- A natural number that may carry a plus sign. -/
def toUnsigned? (base : Nat) : List Char → Option Nat
  | '+' :: cs => toNat? base cs
  | cs => toNat? base cs

/-- An integer that may carry one sign. -/
def toInt? (base : Nat) : List Char → Option Int
  | '+' :: cs => (toNat? base cs).map Int.ofNat
  | '-' :: cs => (toNat? base cs).map fun n => -Int.ofNat n
  | cs => (toNat? base cs).map Int.ofNat

end Reductions.Numeral
