import Reductions.Expr.Basic

/-!
# Flattening blocks

A block that is a statement of another block is replaced by its statements. The body of a loop stays
a block of its own.
-/

namespace Reductions.Expr

mutual

/-- The tree without a block directly inside a block. -/
def flatten : Expr → Expr
  | block ss => block (flattenAll ss)
  | loop v min extent marks body => loop v min extent marks body.flatten
  | e => e

/-- The statements of a list with those of its blocks in their place. -/
def flattenAll : List Expr → List Expr
  | [] => []
  | s :: ss => s.flatten.statements ++ flattenAll ss

end

mutual

/-- The number of blocks that are statements of another block. -/
def countNestedBlocks : Expr → Nat
  | block ss => countNestedBlocksAll ss
  | loop _ _ _ _ body => body.countNestedBlocks
  | _ => 0

def countNestedBlocksAll : List Expr → Nat
  | [] => 0
  | s :: ss => s.countNestedBlocks + (if s.isBlock then 1 else 0) + countNestedBlocksAll ss

end

theorem flattenAll_eq (ss : List Expr) :
    flattenAll ss = (ss.map flatten).flatMap statements := by
  induction ss with
  | nil => rfl
  | cons s ss ih => rw [flattenAll, ih, List.map_cons, List.flatMap_cons]

theorem isBlock_flatten (e : Expr) : e.flatten.isBlock = e.isBlock := by
  cases e <;> rfl

end Reductions.Expr
