import Reductions.Number.Numeral
import Reductions.Number.Shortest

/-!
# Writing doubles

The text of a double is its shortest decimal, positional for moderate sizes and with an exponent for
the rest. `FloatStyle` holds the choices; `FloatStyle.dump` is the one that dumps of trees use.
-/

namespace Reductions

structure FloatStyle where
  /-- Least exponent of the leading digit that is written positionally. -/
  leastPositional : Int
  /-- Greatest exponent of the leading digit that is written positionally. -/
  greatestPositional : Int
  exponentMark : Char
  nan : String
  infinity : String

/-- Positional from `0.0001` to just below `10 ^ 16`, always with a digit after the point; otherwise
with an exponent that has no plus sign and no padding. -/
def FloatStyle.dump : FloatStyle where
  leastPositional := -4
  greatestPositional := 15
  exponentMark := 'e'
  nan := "NaN"
  infinity := "inf"

namespace FloatStyle

/-- Digits with the point after the first `whole` of them; zeros fill the places that are missing.
-/
def positional (digits : List Char) (whole : Int) : List Char :=
  if whole ≤ 0 then
    '0' :: '.' :: (List.replicate (-whole).toNat '0' ++ digits)
  else
    let n := whole.toNat
    let front := digits.take n ++ List.replicate (n - digits.length) '0'
    let back := digits.drop n
    front ++ '.' :: (if back.isEmpty then ['0'] else back)

def exponential (style : FloatStyle) (digits : List Char) (exponent : Int) : List Char :=
  let mantissa := match digits with
    | d :: e :: rest => d :: '.' :: e :: rest
    | short => short
  mantissa ++ style.exponentMark :: Numeral.ofInt exponent

def magnitude (style : FloatStyle) (x : Binary64) : List Char :=
  if x.isZero then ['0', '.', '0']
  else
    let decimal := Shortest.decimal x
    let digits := Numeral.ofNat decimal.digits
    let leading := decimal.exponent + digits.length - 1
    let digits := (digits.reverse.dropWhile (· == '0')).reverse
    if style.leastPositional ≤ leading ∧ leading ≤ style.greatestPositional then
      positional digits (leading + 1)
    else
      style.exponential digits leading

def write (style : FloatStyle) (x : Binary64) : List Char :=
  if x.isNaN then style.nan.toList
  else
    let body := if x.isInfinite then style.infinity.toList else style.magnitude x
    if x.isNegative then '-' :: body else body

end FloatStyle

end Reductions
