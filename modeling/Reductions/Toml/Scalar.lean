import Reductions.Number.Numeral
import Reductions.Number.Word
import Reductions.Toml.Basic

/-!
# Numbers, dates and truth values

The values that are written without quotes and brackets. Each is recognised from its whole text.
-/

namespace Reductions.Toml

def splitAtFirst (test : Char → Bool) (cs : List Char) : List Char × List Char :=
  (cs.takeWhile (!test ·), cs.dropWhile (!test ·))

/-! ## Integers -/

/-- Digits without the underscores between them. An underscore has a digit on either side. -/
def digits? (isDigit : Char → Bool) : List Char → Option (List Char)
  | [] => none
  | [c] => if isDigit c then some [c] else none
  | c :: '_' :: rest => if isDigit c then (digits? isDigit rest).map (c :: ·) else none
  | c :: rest => if isDigit c then (digits? isDigit rest).map (c :: ·) else none

def wholeDigits? (cs : List Char) : Option (List Char) :=
  (digits? Char.isDigit cs).filter fun ds => ds.length == 1 || ds.head? != some '0'

def hasBase (base : Nat) (c : Char) : Bool :=
  (Numeral.pushDigit? base 0 c).isSome

/-- Digits of a base behind its mark. -/
def based? (base : Nat) (cs : List Char) : Option Int :=
  ((digits? (hasBase base) cs).bind (Numeral.toNat? base)).map Int.ofNat

def takeSign : List Char → Option Bool × List Char
  | '+' :: rest => (some false, rest)
  | '-' :: rest => (some true, rest)
  | cs => (none, cs)

def integer? : List Char → Option Int
  | '0' :: 'x' :: cs => based? 16 cs
  | '0' :: 'o' :: cs => based? 8 cs
  | '0' :: 'b' :: cs => based? 2 cs
  | cs =>
    let (sign, rest) := takeSign cs
    ((wholeDigits? rest).bind (Numeral.toNat? 10)).map fun n =>
      if sign = some true then -(n : Int) else n

/-! ## Floating-point numbers -/

/-- The exponent behind its mark, or zero if there is no mark. -/
def exponent? : List Char → Option Int
  | [] => some 0
  | _ :: cs =>
    let (sign, rest) := takeSign cs
    ((digits? Char.isDigit rest).bind (Numeral.toNat? 10)).map fun n =>
      if sign = some true then -(n : Int) else n

/-- The digits behind the point, or none if there is no point. -/
def fraction? : List Char → Option (List Char)
  | [] => some []
  | _ :: cs => digits? Char.isDigit cs

/-- A number with a fraction, an exponent or both. One above all doubles is refused. -/
def decimal? (cs : List Char) : Option Binary64 :=
  let (sign, rest) := takeSign cs
  let (mantissa, exponent) := splitAtFirst (fun c => c == 'e' || c == 'E') rest
  let (whole, fraction) := splitAtFirst (· == '.') mantissa
  if exponent.isEmpty ∧ fraction.isEmpty then none
  else
    match wholeDigits? whole, fraction? fraction, exponent? exponent with
    | some ws, some fs, some e =>
      (Numeral.toNat? 10 (ws ++ fs)).bind fun n =>
        let x := Binary64.ofDecimal (sign == some true) n (e - fs.length)
        if x = .infinity false then none else some x
    | _, _, _ => none

def special? (cs : List Char) : Option Binary64 :=
  let (sign, rest) := takeSign cs
  let negative := sign == some true
  if rest = ['i', 'n', 'f'] then some (.infinity negative)
  else if rest = ['n', 'a', 'n'] then
    some (.quietNaN negative)
  else none

/-! ## Dates and times -/

/-- A number of exactly so many digits at the front, within limits, and the rest. -/
def field? (width low high : Nat) (cs : List Char) : Option (Nat × List Char) :=
  let front := cs.take width
  if front.length = width ∧ front.all Char.isDigit then
    (Numeral.toNat? 10 front).bind fun n =>
      if low ≤ n ∧ n ≤ high then some (n, cs.drop width) else none
  else none

def mark? (c : Char) : List Char → Option (List Char)
  | [] => none
  | d :: rest => if d = c then some rest else none

def daysIn (year month : Nat) : Nat :=
  if month = 2 then
    if year % 4 = 0 ∧ (year % 100 ≠ 0 ∨ year % 400 = 0) then 29 else 28
  else if month = 4 ∨ month = 6 ∨ month = 9 ∨ month = 11 then 30
  else 31

def date? (cs : List Char) : Option (List Char) := do
  let (year, cs) ← field? 4 0 9999 cs
  let cs ← mark? '-' cs
  let (month, cs) ← field? 2 1 12 cs
  let cs ← mark? '-' cs
  let (_, cs) ← field? 2 1 (daysIn year month) cs
  some cs

def secondFraction? : List Char → Option (List Char)
  | '.' :: cs =>
    if (cs.takeWhile Char.isDigit).isEmpty then none else some (cs.dropWhile Char.isDigit)
  | cs => some cs

def time? (cs : List Char) : Option (List Char) := do
  let (_, cs) ← field? 2 0 23 cs
  let cs ← mark? ':' cs
  let (_, cs) ← field? 2 0 59 cs
  let cs ← mark? ':' cs
  let (_, cs) ← field? 2 0 60 cs
  secondFraction? cs

def isOffset (cs : List Char) : Bool :=
  match cs with
  | [] | ['Z'] | ['z'] => true
  | sign :: cs =>
    (sign == '+' || sign == '-') &&
      ((do
        let (_, cs) ← field? 2 0 23 cs
        let cs ← mark? ':' cs
        let (_, cs) ← field? 2 0 59 cs
        some cs) : Option (List Char)) == some []

def isDatetime (cs : List Char) : Bool :=
  match date? cs with
  | some [] => true
  | some (mark :: rest) =>
    (mark == 'T' || mark == 't' || mark == ' ') &&
      match time? rest with
      | some offset => isOffset offset
      | none => false
  | none => time? cs == some []

/-! ## All of them -/

def isScalarChar (c : Char) : Bool :=
  c.isAlphanum || c == '+' || c == '-' || c == '_' || c == '.' || c == ':'

def scalar? (cs : List Char) : Option Toml :=
  if cs = ['t', 'r', 'u', 'e'] then some (.bool true)
  else if cs = ['f', 'a', 'l', 's', 'e'] then some (.bool false)
  else if isDatetime cs then some (.datetime (String.ofList cs))
  else
    match (integer? cs).bind Word.int64? with
    | some n => some (.int n)
    | none => ((decimal? cs).or (special? cs)).map .float

/-- The text of a value without quotes and brackets at the front, and the rest. A date may be joined
to its time by a blank. -/
def takeScalar (cs : List Char) : List Char × List Char :=
  let front := cs.takeWhile isScalarChar
  let rest := cs.dropWhile isScalarChar
  match date? front, rest with
  | some [], ' ' :: after =>
    match after with
    | a :: b :: ':' :: _ =>
      if a.isDigit && b.isDigit then
        (front ++ ' ' :: after.takeWhile isScalarChar, after.dropWhile isScalarChar)
      else (front, rest)
    | _ => (front, rest)
  | _, _ => (front, rest)

end Reductions.Toml
