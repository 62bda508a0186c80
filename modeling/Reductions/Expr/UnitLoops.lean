import Reductions.Expr.Fold
import Reductions.Expr.Substitute

/-!
# Removing loops that run once

A loop whose trip count is the constant one is replaced by its body, with the lower bound put in for
the variable and constants folded. Inner loops go first. A trip count that becomes one only through
an outer removal stays.
-/

namespace Reductions.Expr

mutual

/-- The tree without the loops that run once. -/
def removeUnitLoops : Expr → Expr
  | loop v min extent marks body =>
    if extent.asInt? = some 1 then (substitute v min body.removeUnitLoops).fold
    else loop v min extent marks body.removeUnitLoops
  | block ss => block (removeUnitLoopsAll ss)
  | e => e

def removeUnitLoopsAll : List Expr → List Expr
  | [] => []
  | s :: ss => s.removeUnitLoops :: removeUnitLoopsAll ss

end

mutual

def countUnitLoops : Expr → Nat
  | loop _ _ extent _ body => body.countUnitLoops + if extent.asInt? = some 1 then 1 else 0
  | block ss => countUnitLoopsAll ss
  | _ => 0

def countUnitLoopsAll : List Expr → Nat
  | [] => 0
  | s :: ss => s.countUnitLoops + countUnitLoopsAll ss

end

theorem removeUnitLoopsAll_eq (ss : List Expr) :
    removeUnitLoopsAll ss = ss.map removeUnitLoops := by
  induction ss with
  | nil => rfl
  | cons s ss ih => simp [removeUnitLoopsAll, ih]

theorem countUnitLoopsAll_append (as bs : List Expr) :
    countUnitLoopsAll (as ++ bs) = countUnitLoopsAll as + countUnitLoopsAll bs := by
  induction as with
  | nil => simp [countUnitLoopsAll]
  | cons a as ih => simp [countUnitLoopsAll, ih, Nat.add_assoc]

end Reductions.Expr
