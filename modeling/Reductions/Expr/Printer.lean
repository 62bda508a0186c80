import Reductions.Number.Scientific
import Reductions.Expr.Basic

/-!
# Printing trees

Statements are written one on a line, two blanks deeper inside each loop and block. A loop whose
body is a block needs no second pair of braces; any other block has its own. `Expr.write` is the
dump of a whole tree and `Expr.writeValue` the text of a value inside a line.
-/

namespace Reductions

/-- The marks of a loop as they stand in its head: nothing when there are none. -/
def LoopMarks.writeHead (m : LoopMarks) : List Char :=
  if m = .empty then [] else " LoopAttrs(".toList ++ m.write ++ [')']

namespace Expr

/-- What stands for a statement where a value is expected. -/
def statementText : List Char :=
  "<stmt>".toList

mutual

def writeValue : Expr → List Char
  | int n => Numeral.ofInt n.toInt
  | float x => FloatStyle.dump.write x
  | bool b => (toString b).toList
  | var name => name.toList
  | handle tensor => tensor.name.toList
  | binary op lhs rhs =>
    if op.isFunction then
      op.symbol.toList ++ '(' :: lhs.writeValue ++ [',', ' '] ++ rhs.writeValue ++ [')']
    else
      '(' :: lhs.writeValue ++ ' ' :: op.symbol.toList ++ ' ' :: rhs.writeValue ++ [')']
  | load tensor indices => tensor.toList ++ Text.bracketed (writeValues indices)
  | store _ _ _ | loop _ _ _ _ _ | block _ => statementText

def writeValues : List Expr → List (List Char)
  | [] => []
  | e :: es => e.writeValue :: writeValues es

end

def indent (depth : Nat) : List Char :=
  List.replicate (2 * depth) ' '

def writeLoopHead (name : String) (min extent : Expr) (marks : LoopMarks) : List Char :=
  "for ".toList ++ name.toList ++ " in ".toList ++ min.writeValue ++ "..+".toList
    ++ extent.writeValue ++ marks.writeHead ++ [' ', '\x7b']

mutual

/-- The lines of a statement. A block that is `bare` gets no braces and does not go deeper. -/
def writeAt (bare : Bool) (depth : Nat) : Expr → List Char
  | loop name min extent marks body =>
    indent depth ++ writeLoopHead name min extent marks ++ '\n' :: body.writeAt true (depth + 1)
      ++ indent depth ++ ['\x7d', '\n']
  | block ss =>
    if bare then writeAllAt depth ss
    else indent depth ++ '\x7b' :: '\n' :: writeAllAt (depth + 1) ss
      ++ indent depth ++ ['\x7d', '\n']
  | store tensor indices value =>
    indent depth ++ tensor.toList ++ Text.bracketed (writeValues indices) ++ " = ".toList
      ++ value.writeValue ++ ['\n']
  | e => indent depth ++ e.writeValue ++ ['\n']

def writeAllAt (depth : Nat) : List Expr → List Char
  | [] => []
  | s :: ss => s.writeAt false depth ++ writeAllAt depth ss

end

def write (e : Expr) : List Char :=
  e.writeAt false 0

def text (e : Expr) : String :=
  String.ofList e.write

theorem writeAllAt_eq (depth : Nat) (ss : List Expr) :
    writeAllAt depth ss = ss.flatMap (writeAt false depth) := by
  induction ss with
  | nil => rfl
  | cons s ss ih => simp [writeAllAt, ih]

end Expr

end Reductions
