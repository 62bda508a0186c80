/-!
# Kinds of reduction
-/

namespace Reductions

/-- How the elements along the reduced axes are put together. -/
inductive ReductionKind where
  | sum
  | prod
  | max
  | min
  | all
  | any
deriving DecidableEq, Repr, Inhabited

namespace ReductionKind

def table : List ReductionKind :=
  [sum, prod, max, min, all, any]

/-- Whether the kind is defined on booleans only. -/
def isLogical : ReductionKind → Bool
  | all | any => true
  | _ => false

def label : ReductionKind → String
  | sum => "Sum"
  | prod => "Prod"
  | max => "Max"
  | min => "Min"
  | all => "All"
  | any => "Any"

theorem mem_table (kind : ReductionKind) : kind ∈ table := by
  cases kind <;> decide

end ReductionKind

end Reductions
