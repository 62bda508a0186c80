import Reductions.Toml.Quoted
import Reductions.Toml.Scalar
import Reductions.Toml.Table

/-!
# Reading TOML documents

A document is a series of lines: a key with its value, the header of a table, or nothing, each with
a comment behind it if need be. Each step takes a piece off the front of the text and gives the
rest.
-/

namespace Reductions.Toml

/-! ## Keys -/

def isKeyChar (c : Char) : Bool :=
  c.isAlphanum || c == '_' || c == '-'

def keyName? (cs : List Char) : Option (String × List Char) :=
  match cs with
  | '"' :: rest => (basic? (rest.length + 1) rest).map fun (t, r) => (String.ofList t, r)
  | '\'' :: rest => (literal? rest).map fun (t, r) => (String.ofList t, r)
  | cs =>
    let name := cs.takeWhile isKeyChar
    if name.isEmpty then none else some (String.ofList name, cs.dropWhile isKeyChar)

/-- The names of a key with points between them. Blanks around a name do not count. -/
def key? (fuel : Nat) (cs : List Char) : Option (List String × List Char) :=
  match fuel with
  | 0 => none
  | fuel + 1 =>
    (keyName? (skipBlanks cs)).bind fun (name, rest) =>
      match skipBlanks rest with
      | '.' :: rest => (key? fuel rest).map fun (names, rest) => (name :: names, rest)
      | rest => some ([name], rest)

/-- No document may nest this deep. -/
def depthLimit : Nat := 80

def shortKey? (cs : List Char) : Option (List String × List Char) :=
  (key? (cs.length + 1) cs).filter fun (names, _) => names.length < depthLimit

/-! ## Between values -/

def skipComment (cs : List Char) : List Char :=
  match cs with
  | '#' :: rest => rest.dropWhile isTextChar
  | cs => cs

def skipSpace : Nat → List Char → List Char
  | 0, cs => cs
  | fuel + 1, cs =>
    let cs := skipComment (skipBlanks cs)
    match takeNewline? cs with
    | some rest => skipSpace fuel rest
    | none => cs

def skipAll (cs : List Char) : List Char :=
  skipSpace (cs.length + 1) cs

/-! ## Values -/

mutual

/-- A value. `depth` is the number of brackets that may still be opened. -/
def value? (fuel depth : Nat) (cs : List Char) : Option (Toml × List Char) :=
  match fuel with
  | 0 => none
  | fuel + 1 =>
    match cs with
    | '"' :: _ | '\'' :: _ => (string? cs).map fun (s, rest) => (.string s, rest)
    | '[' :: rest =>
      match depth with
      | 0 => none
      | depth + 1 => (elements? fuel depth rest).map fun (es, rest) => (.array es, rest)
    | '\x7b' :: rest =>
      match depth with
      | 0 => none
      | depth + 1 =>
        match skipBlanks rest with
        | '\x7d' :: rest => some (.table [], rest)
        | rest => (pairs? fuel depth [] rest).map fun (entries, rest) =>
          (.table (finishEntries entries), rest)
    | cs =>
      let (text, rest) := takeScalar cs
      (scalar? text).map fun v => (v, rest)

/-- The values of an array up to the closing bracket. A comma may follow the last value. -/
def elements? (fuel depth : Nat) (cs : List Char) : Option (List Toml × List Char) :=
  match fuel with
  | 0 => none
  | fuel + 1 =>
    match skipAll cs with
    | ']' :: rest => some ([], rest)
    | cs =>
      (value? fuel depth cs).bind fun (v, rest) =>
        match skipAll rest with
        | ',' :: rest => (elements? fuel depth rest).map fun (vs, rest) => (v :: vs, rest)
        | ']' :: rest => some ([v], rest)
        | _ => none

/-- The keys and values of a table in braces up to the closing one, after those read so far. -/
def pairs? (fuel depth : Nat) (entries : Entries) (cs : List Char) : Option (Entries × List Char) :=
  match fuel with
  | 0 => none
  | fuel + 1 =>
    match shortKey? cs with
    | none => none
    | some (key, rest) =>
      match rest with
      | '=' :: rest =>
        match value? fuel depth (skipBlanks rest) with
        | none => none
        | some (v, rest) =>
          match entries.insert [] key v with
          | none => none
          | some entries =>
            match skipBlanks rest with
            | ',' :: rest => pairs? fuel depth entries rest
            | '\x7d' :: rest => some (entries, rest)
            | _ => none
      | _ => none

end

/-! ## Lines -/

/-- The rest of a line behind its content: blanks and a comment, up to the line end or the end of
the document. -/
def lineEnd? (cs : List Char) : Option (List Char) :=
  match skipComment (skipBlanks cs) with
  | [] => some []
  | cs => takeNewline? cs

def header? (cs : List Char) : Option (Bool × List String × List Char) :=
  match cs with
  | '[' :: '[' :: rest =>
    match shortKey? rest with
    | some (names, ']' :: ']' :: rest) => some (true, names, rest)
    | _ => none
  | '[' :: rest =>
    match shortKey? rest with
    | some (names, ']' :: rest) => some (false, names, rest)
    | _ => none
  | _ => none

def pair? (cs : List Char) : Option (List String × Toml × List Char) :=
  match shortKey? cs with
  | some (key, '=' :: rest) =>
    (value? (2 * rest.length + 2) (depthLimit - 1) (skipBlanks rest)).map fun (v, rest) =>
      (key, v, rest)
  | _ => none

/-- Reads lines into the entries so far; keys belong to the table with the given header. -/
def lines? (fuel : Nat) (header : List String) (entries : Entries) (cs : List Char) :
    Option Entries :=
  match fuel with
  | 0 => none
  | fuel + 1 =>
    match skipBlanks cs with
    | [] => some entries
    | '[' :: rest =>
      (header? ('[' :: rest)).bind fun (isElement, header, rest) =>
        (entries.follow isElement header).bind fun entries =>
          (lineEnd? rest).bind (lines? fuel header entries)
    | '#' :: rest => (lineEnd? ('#' :: rest)).bind (lines? fuel header entries)
    | '\n' :: rest => lines? fuel header entries rest
    | '\r' :: rest => (takeNewline? ('\r' :: rest)).bind (lines? fuel header entries)
    | cs =>
      (pair? cs).bind fun (key, v, rest) =>
        (entries.insert header key v).bind fun entries =>
          (lineEnd? rest).bind (lines? fuel header entries)

def parse (text : String) : Option (List (String × Toml)) :=
  let cs := match text.toList with
    | '\ufeff' :: rest => rest
    | cs => cs
  (lines? (cs.length + 1) [] [] cs).map finishEntries

end Reductions.Toml
