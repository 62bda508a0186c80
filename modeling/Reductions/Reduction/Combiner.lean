import Reductions.Expr.Basic

/-!
# Combining elements

Each kind of reduction has an operation that combines two partial results and a constant that an
accumulator starts from.
-/

namespace Reductions.ReductionKind

/-- The operation that combines a partial result with the next element. -/
def combiner : ReductionKind → BinaryOp
  | sum => .add
  | prod => .mul
  | max => .max
  | min => .min
  | all => .and
  | any => .or

/-- A constant for floating-point elements or one for all others. -/
def constant (element : ElementType) (float : Binary64) (int : Int64) : Expr :=
  if element.isFloat then .float float else .int int

/-- The value an accumulator starts from. The extreme kinds start from the far end of the constants'
range, not of the element type's. -/
def identity (kind : ReductionKind) (element : ElementType) : Expr :=
  match kind with
  | sum => constant element .zero 0
  | prod => constant element .one 1
  | max => constant element (.infinity true) Int64.minValue
  | min => constant element (.infinity false) Int64.maxValue
  | all => .bool true
  | any => .bool false

end Reductions.ReductionKind
