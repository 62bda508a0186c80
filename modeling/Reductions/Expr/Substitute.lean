import Reductions.Expr.Basic

/-!
# Substitution

Replacing a variable by an expression. A loop that binds the same variable hides it from its body,
but not from its own bounds.
-/

namespace Reductions.Expr

mutual

/-- The tree with `replacement` for every free occurrence of the variable `name`. -/
def substitute (name : String) (replacement : Expr) : Expr → Expr
  | var v => if v = name then replacement else var v
  | binary op lhs rhs =>
    binary op (substitute name replacement lhs) (substitute name replacement rhs)
  | load tensor indices => load tensor (substituteAll name replacement indices)
  | store tensor indices value =>
    store tensor (substituteAll name replacement indices) (substitute name replacement value)
  | loop v min extent marks body =>
    loop v (substitute name replacement min) (substitute name replacement extent) marks
      (if v = name then body else substitute name replacement body)
  | block ss => block (substituteAll name replacement ss)
  | e => e

def substituteAll (name : String) (replacement : Expr) : List Expr → List Expr
  | [] => []
  | e :: es => substitute name replacement e :: substituteAll name replacement es

end

theorem substituteAll_eq (name : String) (replacement : Expr) (es : List Expr) :
    substituteAll name replacement es = es.map (substitute name replacement) := by
  induction es with
  | nil => rfl
  | cons e es ih => simp [substituteAll, ih]

end Reductions.Expr
