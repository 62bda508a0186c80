import Reductions.Expr.Fold
import Reductions.Proofs.Execution

/-!
# The rules of folding

Folding treats one operation at a time, on operands that are folded already. The
rules that it follows, without the order in which it tries them, are a relation.
What holds of every rule holds of folding.
-/

namespace Reductions.Expr

/-- What can become of an operation on two operands. -/
inductive FoldsTo : BinaryOp → Expr → Expr → Expr → Prop
  | kept (op : BinaryOp) (lhs rhs : Expr) : FoldsTo op lhs rhs (binary op lhs rhs)
  | int {op : BinaryOp} {a b n : Int64} : op.evalInt? a b = some n →
      FoldsTo op (int a) (int b) (int n)
  | and (a b : Bool) : FoldsTo .and (bool a) (bool b) (bool (a && b))
  | or (a b : Bool) : FoldsTo .or (bool a) (bool b) (bool (a || b))
  | zeroAdd (e : Expr) : FoldsTo .add (.int 0) e e
  | addZero (e : Expr) : FoldsTo .add e (.int 0) e
  | subZero (e : Expr) : FoldsTo .sub e (.int 0) e
  | oneMul (e : Expr) : FoldsTo .mul (.int 1) e e
  | mulOne (e : Expr) : FoldsTo .mul e (.int 1) e
  | zeroMul (e : Expr) : FoldsTo .mul (.int 0) e (.int 0)
  | mulZero (e : Expr) : FoldsTo .mul e (.int 0) (.int 0)

theorem foldsTo_dropIdle (op : BinaryOp) (lhs rhs : Expr) :
    FoldsTo op lhs rhs (dropIdle op lhs rhs) := by
  cases op with
  | max | min | and | or => exact .kept _ lhs rhs
  | add =>
      rw [dropIdle]
      by_cases hl0 : lhs.asInt? = some 0
      · rw [if_pos hl0, eq_int_of_asInt? hl0]
        exact .zeroAdd rhs
      rw [if_neg hl0]
      by_cases hr0 : rhs.asInt? = some 0
      · rw [if_pos hr0, eq_int_of_asInt? hr0]
        exact .addZero lhs
      rw [if_neg hr0]
      exact .kept _ lhs rhs
  | sub =>
      rw [dropIdle]
      by_cases hr0 : rhs.asInt? = some 0
      · rw [if_pos hr0, eq_int_of_asInt? hr0]
        exact .subZero lhs
      rw [if_neg hr0]
      exact .kept _ lhs rhs
  | mul =>
      rw [dropIdle]
      by_cases hl1 : lhs.asInt? = some 1
      · rw [if_pos hl1, eq_int_of_asInt? hl1]
        exact .oneMul rhs
      rw [if_neg hl1]
      by_cases hr1 : rhs.asInt? = some 1
      · rw [if_pos hr1, eq_int_of_asInt? hr1]
        exact .mulOne lhs
      rw [if_neg hr1]
      by_cases h0 : lhs.asInt? = some 0 ∨ rhs.asInt? = some 0
      · rw [if_pos h0]
        rcases h0 with hl0 | hr0
        · rw [eq_int_of_asInt? hl0]
          exact .zeroMul rhs
        · rw [eq_int_of_asInt? hr0]
          exact .mulZero lhs
      rw [if_neg h0]
      exact .kept _ lhs rhs

theorem foldsTo_foldBinary (op : BinaryOp) (lhs rhs : Expr) :
    FoldsTo op lhs rhs (foldBinary op lhs rhs) := by
  unfold foldBinary
  split
  · split
    · next hn => exact .int hn
    · exact .kept op _ _
  · split
    · exact .and _ _
    · exact .or _ _
    · exact .kept op _ _
  · exact foldsTo_dropIdle op lhs rhs

theorem foldBinary_induct {P : Expr → Prop} {op : BinaryOp} {lhs rhs : Expr} (hlhs : P lhs)
    (hrhs : P rhs) (hkept : P (.binary op lhs rhs)) (hint : ∀ n, P (.int n))
    (hbool : ∀ b, P (.bool b)) : P (foldBinary op lhs rhs) := by
  have h := foldsTo_foldBinary op lhs rhs
  generalize foldBinary op lhs rhs = e at h ⊢
  cases h with
  | kept => exact hkept
  | int | zeroMul | mulZero => exact hint _
  | and | or => exact hbool _
  | addZero | subZero | mulOne => exact hlhs
  | zeroAdd | oneMul => exact hrhs

end Reductions.Expr
