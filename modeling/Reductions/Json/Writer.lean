import Reductions.Number.Scientific
import Reductions.Text.Lines
import Reductions.Json.Basic

/-!
# Writing JSON

The shortest form of a document: no blanks, and in strings only the escapes that are needed.
-/

namespace Reductions.Json

def escapeChar (c : Char) : List Char :=
  if c = '"' then ['\\', '"']
  else if c = '\\' then ['\\', '\\']
  else if c.toNat < 0x20 then
    let digits := Numeral.hexOfNat c.toNat
    '\\' :: 'u' :: (List.replicate (4 - digits.length) '0' ++ digits)
  else [c]

def writeString (s : String) : List Char :=
  '"' :: s.toList.flatMap escapeChar ++ ['"']

mutual

/-- The text of a document. A number that is not finite has no JSON form and becomes `null`. -/
def write : Json → List Char
  | null => "null".toList
  | bool b => (toString b).toList
  | int n => Numeral.ofInt n
  | float x => if x.isFinite then FloatStyle.dump.write x else "null".toList
  | string s => writeString s
  | array elements => '[' :: Text.join [','] (writeAll elements) ++ [']']
  | object members => '\x7b' :: Text.join [','] (writeMembers members) ++ ['\x7d']

def writeAll : List Json → List (List Char)
  | [] => []
  | j :: js => j.write :: writeAll js

def writeMembers : List (String × Json) → List (List Char)
  | [] => []
  | (name, j) :: rest => (writeString name ++ ':' :: j.write) :: writeMembers rest

end

def text (j : Json) : String :=
  String.ofList j.write

end Reductions.Json
