import Reductions.Number.Word
import Reductions.Expr.Basic

/-!
# Constant folding

Operations on two integer or two boolean constants are evaluated, and operations with a neutral or
absorbing integer constant disappear. An integer result that a signed word cannot hold stays
unfolded. Nothing is calculated with floating-point constants, so rounding is left to whoever runs
the tree.
-/

namespace Reductions

/-- The exact result of an operation on two integers, if it has one that a word holds. -/
def BinaryOp.evalInt? (op : BinaryOp) (a b : Int64) : Option Int64 :=
  match op with
  | add => Word.int64? (a.toInt + b.toInt)
  | sub => Word.int64? (a.toInt - b.toInt)
  | mul => Word.int64? (a.toInt * b.toInt)
  | max => some (if a ≤ b then b else a)
  | min => some (if a ≤ b then a else b)
  | and | or => none

namespace Expr

/-- Drops an operation that an integer zero or one makes idle, and a product with zero. -/
def dropIdle (op : BinaryOp) (lhs rhs : Expr) : Expr :=
  match op with
  | .add =>
    if lhs.asInt? = some 0 then rhs
    else if rhs.asInt? = some 0 then lhs
    else binary op lhs rhs
  | .sub => if rhs.asInt? = some 0 then lhs else binary op lhs rhs
  | .mul =>
    if lhs.asInt? = some 1 then rhs
    else if rhs.asInt? = some 1 then lhs
    else if lhs.asInt? = some 0 ∨ rhs.asInt? = some 0 then int 0
    else binary op lhs rhs
  | _ => binary op lhs rhs

/-- Folds one operation on folded operands. Two integers are evaluated or stay as they are. -/
def foldBinary (op : BinaryOp) (lhs rhs : Expr) : Expr :=
  match lhs, rhs with
  | int a, int b =>
    match op.evalInt? a b with
    | some n => int n
    | none => binary op lhs rhs
  | bool a, bool b =>
    match op with
    | .and => bool (a && b)
    | .or => bool (a || b)
    | _ => binary op lhs rhs
  | _, _ => dropIdle op lhs rhs

mutual

/-- Folds every operation of the tree, innermost first. -/
def fold : Expr → Expr
  | binary op lhs rhs => foldBinary op lhs.fold rhs.fold
  | load tensor indices => load tensor (foldAll indices)
  | store tensor indices value => store tensor (foldAll indices) value.fold
  | loop v min extent marks body => loop v min.fold extent.fold marks body.fold
  | block ss => block (foldAll ss)
  | e => e

def foldAll : List Expr → List Expr
  | [] => []
  | e :: es => e.fold :: foldAll es

end

theorem foldAll_eq (es : List Expr) : foldAll es = es.map fold := by
  induction es with
  | nil => rfl
  | cons e es ih => simp [foldAll, ih]

end Expr

end Reductions
