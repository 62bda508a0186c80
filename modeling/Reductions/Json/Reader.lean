import Reductions.Number.Numeral
import Reductions.Number.Word
import Reductions.Json.Basic

/-!
# Reading JSON

A reader for documents. Each step takes a piece off the front of the text and gives the rest. If an
object names a member twice, the last one counts.
-/

namespace Reductions.Json

def isSpace (c : Char) : Bool :=
  c == ' ' || c == '\t' || c == '\n' || c == '\r'

def skipSpace (cs : List Char) : List Char :=
  cs.dropWhile isSpace

/-- The members with this one last; an earlier one of the same name is gone. -/
def setMember (members : List (String × Json)) (name : String) (j : Json) : List (String × Json) :=
  members.filter (fun m => m.1 != name) ++ [(name, j)]

/-! ## Strings -/

def unit? : List Char → Option (Nat × List Char)
  | a :: b :: c :: d :: rest => (Numeral.toNat? 16 [a, b, c, d]).map fun n => (n, rest)
  | _ => none

/-- The character of an escape by code unit. A unit of the high range needs one of the low range. -/
def unicodeEscape? (cs : List Char) : Option (Char × List Char) :=
  match unit? cs with
  | none => none
  | some (high, rest) =>
    if 0xd800 ≤ high ∧ high < 0xdc00 then
      match rest with
      | '\\' :: 'u' :: rest =>
        match unit? rest with
        | some (low, rest) =>
          if 0xdc00 ≤ low ∧ low < 0xe000 then
            some (Char.ofNat (0x10000 + (high - 0xd800) * 0x400 + (low - 0xdc00)), rest)
          else none
        | none => none
      | _ => none
    else if 0xdc00 ≤ high ∧ high < 0xe000 then none
    else some (Char.ofNat high, rest)

def letterEscape? : Char → Option Char
  | '"' => some '"'
  | '\\' => some '\\'
  | '/' => some '/'
  | 'b' => some '\x08'
  | 'f' => some '\x0c'
  | 'n' => some '\n'
  | 'r' => some '\r'
  | 't' => some '\t'
  | _ => none

def readString (fuel : Nat) (cs : List Char) : Option (List Char × List Char) :=
  match fuel with
  | 0 => none
  | fuel + 1 =>
    match cs with
    | [] => none
    | '"' :: rest => some ([], rest)
    | '\\' :: 'u' :: rest =>
      match unicodeEscape? rest with
      | some (c, rest) => (readString fuel rest).map fun (cs, rest) => (c :: cs, rest)
      | none => none
    | '\\' :: letter :: rest =>
      match letterEscape? letter with
      | some c => (readString fuel rest).map fun (cs, rest) => (c :: cs, rest)
      | none => none
    | c :: rest =>
      if c.toNat < 0x20 ∨ c = '\\' then none
      else (readString fuel rest).map fun (cs, rest) => (c :: cs, rest)

/-! ## Numbers -/

def takeDigits (cs : List Char) : List Char × List Char :=
  (cs.takeWhile Char.isDigit, cs.dropWhile Char.isDigit)

/-- A number by its written parts. One without a fraction and an exponent is whole if a word holds
it, except that a negative zero is a double. -/
def ofParts (negative : Bool) (whole fraction : List Char) (exponent : Option Int) : Option Json :=
  (Numeral.toNat? 10 (whole ++ fraction)).bind fun digits =>
    let signed : Int := if negative then -digits else digits
    let isWhole := fraction.isEmpty && exponent.isNone && !(negative && digits == 0)
    let fits := (Word.int64? signed).isSome || (Word.uint64? signed).isSome
    if isWhole && fits then some (int signed)
    else
      let x := Binary64.ofDecimal negative digits (exponent.getD 0 - fraction.length)
      if x.isFinite then some (float x) else none

def readFraction (cs : List Char) : Option (List Char × List Char) :=
  match cs with
  | '.' :: rest =>
    match takeDigits rest with
    | ([], _) => none
    | parts => some parts
  | _ => some ([], cs)

def readExponent (cs : List Char) : Option (Option Int × List Char) :=
  let digits (negative : Bool) (cs : List Char) : Option (Option Int × List Char) :=
    (Numeral.toNat? 10 (takeDigits cs).1).map fun n =>
      (some (if negative then -(n : Int) else n), (takeDigits cs).2)
  let signed : List Char → Option (Option Int × List Char)
    | '-' :: rest => digits true rest
    | '+' :: rest => digits false rest
    | rest => digits false rest
  match cs with
  | 'e' :: rest | 'E' :: rest => signed rest
  | _ => some (none, cs)

/-- A number without its sign. A leading zero stands alone. -/
def readMagnitude (negative : Bool) (cs : List Char) : Option (Json × List Char) :=
  let (whole, rest) := takeDigits cs
  if whole.isEmpty ∨ (whole.head? = some '0' ∧ whole ≠ ['0']) then none
  else
    match readFraction rest with
    | none => none
    | some (fraction, rest) =>
      match readExponent rest with
      | none => none
      | some (exponent, rest) =>
        (ofParts negative whole fraction exponent).map fun j => (j, rest)

def readNumber : List Char → Option (Json × List Char)
  | '-' :: rest => readMagnitude true rest
  | cs => readMagnitude false cs

/-! ## Documents -/

def readWord (word : List Char) (j : Json) (cs : List Char) : Option (Json × List Char) :=
  if word.isPrefixOf cs then some (j, cs.drop word.length) else none

mutual

def readValue (fuel : Nat) (cs : List Char) : Option (Json × List Char) :=
  match fuel with
  | 0 => none
  | fuel + 1 =>
    match skipSpace cs with
    | '"' :: rest => (readString (rest.length + 1) rest).map fun (s, rest) =>
        (string (String.ofList s), rest)
    | '[' :: rest =>
      match skipSpace rest with
      | ']' :: rest => some (array [], rest)
      | rest => (readElements fuel rest).map fun (js, rest) => (array js, rest)
    | '\x7b' :: rest =>
      match skipSpace rest with
      | '\x7d' :: rest => some (object [], rest)
      | rest => (readMembers fuel [] rest).map fun (members, rest) => (object members, rest)
    | 't' :: rest => readWord "rue".toList (bool true) rest
    | 'f' :: rest => readWord "alse".toList (bool false) rest
    | 'n' :: rest => readWord "ull".toList null rest
    | cs => readNumber cs

def readElements (fuel : Nat) (cs : List Char) : Option (List Json × List Char) :=
  match fuel with
  | 0 => none
  | fuel + 1 =>
    match readValue fuel cs with
    | none => none
    | some (j, rest) =>
      match skipSpace rest with
      | ',' :: rest => (readElements fuel rest).map fun (js, rest) => (j :: js, rest)
      | ']' :: rest => some ([j], rest)
      | _ => none

def readMembers (fuel : Nat) (members : List (String × Json)) (cs : List Char) :
    Option (List (String × Json) × List Char) :=
  match fuel with
  | 0 => none
  | fuel + 1 =>
    match skipSpace cs with
    | '"' :: rest =>
      match readString (rest.length + 1) rest with
      | none => none
      | some (name, rest) =>
        match skipSpace rest with
        | ':' :: rest =>
          match readValue fuel rest with
          | none => none
          | some (j, rest) =>
            let members := setMember members (String.ofList name) j
            match skipSpace rest with
            | ',' :: rest => readMembers fuel members rest
            | '\x7d' :: rest => some (members, rest)
            | _ => none
        | _ => none
    | _ => none

end

def parse (text : String) : Option Json :=
  let cs := text.toList
  match readValue (2 * cs.length + 1) cs with
  | some (j, rest) => if (skipSpace rest).isEmpty then some j else none
  | none => none

end Reductions.Json
