import Reductions.Number.Numeral
import Reductions.Text.Printable

/-!
# Quoted text

A text between double quotes. The quote and the backslash get a backslash, the common control
characters a letter, and every other character that does not print on its own is named by its code
point.
-/

namespace Reductions.Text

def escape (c : Char) : List Char :=
  match c with
  | '\x00' => ['\\', '0']
  | '\t' => ['\\', 't']
  | '\r' => ['\\', 'r']
  | '\n' => ['\\', 'n']
  | '"' => ['\\', '"']
  | '\\' => ['\\', '\\']
  | c =>
    if isPrintable c then [c]
    else ['\\', 'u', '\x7b'] ++ Numeral.hexOfNat c.toNat ++ ['\x7d']

def quoted (text : String) : String :=
  String.ofList ('"' :: text.toList.flatMap escape ++ ['"'])

end Reductions.Text
