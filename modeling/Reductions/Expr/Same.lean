import Reductions.Expr.Basic

/-!
# Comparing trees as values

Two trees are the same when they have the same form and their constants agree, where floating-point
constants agree in the sense of arithmetic. A tree with a NaN is not the same as itself.
-/

namespace Reductions.Expr

mutual

def same : Expr → Expr → Bool
  | int a, int b => a == b
  | float a, float b => a.same b
  | bool a, bool b => a == b
  | var a, var b => a == b
  | handle a, handle b => a == b
  | binary op l r, binary op' l' r' => op == op' && l.same l' && r.same r'
  | load t is, load t' is' => t == t' && sameAll is is'
  | store t is v, store t' is' v' => t == t' && sameAll is is' && v.same v'
  | loop v lo n marks body, loop v' lo' n' marks' body' =>
    v == v' && lo.same lo' && n.same n' && marks == marks' && body.same body'
  | block ss, block ss' => sameAll ss ss'
  | _, _ => false

def sameAll : List Expr → List Expr → Bool
  | [], [] => true
  | e :: es, e' :: es' => e.same e' && sameAll es es'
  | _, _ => false

end

end Reductions.Expr
