import Reductions.Number.Numeral

/-!
# Strings in TOML documents

Strings between single or double quotes, on one line or over several. Double quotes know escapes.
Each reader starts behind the opening quotes and gives the text with the rest of the document.
-/

namespace Reductions.Toml

def isTextChar (c : Char) : Bool :=
  c == '\t' || (0x20 ≤ c.toNat && c.toNat != 0x7f)

def takeNewline? : List Char → Option (List Char)
  | '\n' :: rest => some rest
  | '\r' :: '\n' :: rest => some rest
  | _ => none

def isBlankChar (c : Char) : Bool :=
  c == ' ' || c == '\t'

def skipBlanks (cs : List Char) : List Char :=
  cs.dropWhile isBlankChar

/-! ## Escapes -/

/-- The character with a code point of exactly so many hexadecimal digits. -/
def codePoint? (width : Nat) (cs : List Char) : Option (Char × List Char) :=
  let front := cs.take width
  if front.length = width then
    (Numeral.toNat? 16 front).bind fun n =>
      if n.isValidChar then some (Char.ofNat n, cs.drop width) else none
  else none

def escape? : List Char → Option (Char × List Char)
  | 'b' :: rest => some ('\x08', rest)
  | 't' :: rest => some ('\t', rest)
  | 'n' :: rest => some ('\n', rest)
  | 'f' :: rest => some ('\x0c', rest)
  | 'r' :: rest => some ('\r', rest)
  | '"' :: rest => some ('"', rest)
  | '\\' :: rest => some ('\\', rest)
  | 'u' :: rest => codePoint? 4 rest
  | 'U' :: rest => codePoint? 8 rest
  | _ => none

def skipLines : Nat → List Char → List Char
  | 0, cs => cs
  | fuel + 1, cs =>
    let cs := skipBlanks cs
    match takeNewline? cs with
    | some rest => skipLines fuel rest
    | none => cs

/-- What is left behind a line end that a backslash hides, with all blanks and line ends after it.
-/
def hiddenNewline? (cs : List Char) : Option (List Char) :=
  (takeNewline? (skipBlanks cs)).map fun rest => skipLines (rest.length + 1) rest

/-! ## One line -/

def literal? : List Char → Option (List Char × List Char)
  | [] => none
  | '\'' :: rest => some ([], rest)
  | c :: rest => if isTextChar c then (literal? rest).map fun (t, r) => (c :: t, r) else none

def basic? (fuel : Nat) (cs : List Char) : Option (List Char × List Char) :=
  match fuel with
  | 0 => none
  | fuel + 1 =>
    match cs with
    | [] => none
    | '"' :: rest => some ([], rest)
    | '\\' :: rest =>
      (escape? rest).bind fun (c, rest) => (basic? fuel rest).map fun (t, r) => (c :: t, r)
    | c :: rest => if isTextChar c then (basic? fuel rest).map fun (t, r) => (c :: t, r) else none

/-! ## Several lines -/

/-- Three closing quotes. Up to two more quotes before them belong to the text. -/
def closing? (quote : Char) (cs : List Char) : Option (List Char × List Char) :=
  let quotes := cs.takeWhile (· == quote)
  let n := min quotes.length 5
  if 3 ≤ n then some (List.replicate (n - 3) quote, cs.drop n) else none

/-- The text up to three closing quotes. A line end always reads as a line feed. -/
def multiline? (quote : Char) (fuel : Nat) (cs : List Char) : Option (List Char × List Char) :=
  match fuel with
  | 0 => none
  | fuel + 1 =>
    match closing? quote cs with
    | some closed => some closed
    | none =>
      match takeNewline? cs with
      | some rest => (multiline? quote fuel rest).map fun (t, r) => ('\n' :: t, r)
      | none =>
        match cs with
        | [] => none
        | c :: rest =>
          if c = '\\' ∧ quote = '"' then
            match hiddenNewline? rest with
            | some rest => multiline? quote fuel rest
            | none =>
              (escape? rest).bind fun (c, rest) =>
                (multiline? quote fuel rest).map fun (t, r) => (c :: t, r)
          else if isTextChar c then (multiline? quote fuel rest).map fun (t, r) => (c :: t, r)
          else none

def string? (cs : List Char) : Option (String × List Char) :=
  let fuel := cs.length + 1
  let lines (quote : Char) (rest : List Char) :=
    multiline? quote fuel ((takeNewline? rest).getD rest)
  let read := match cs with
    | '"' :: '"' :: '"' :: rest => lines '"' rest
    | '\'' :: '\'' :: '\'' :: rest => lines '\'' rest
    | '"' :: rest => basic? fuel rest
    | '\'' :: rest => literal? rest
    | _ => none
  read.map fun (text, rest) => (String.ofList text, rest)

end Reductions.Toml
