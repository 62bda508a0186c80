import Reductions.Reduction.Emitter
import Reductions.Strategy.Argument
import Reductions.Strategy.Error

/-!
# Compute functions

The compute function of a reduction takes one nested pack with the input tensor and the name of the
result, and gives the result tensor.
-/

namespace Reductions

def boolOperators : List String :=
  ["reduce_all", "reduce_any"]

namespace Compute

/-- The tensor and the name in the arguments. Of several faults the first in the order of the checks
is reported: the pack, its size, the name, the tensor. -/
def operands (args : Pack) : Except StrategyFault (Tensor × String) :=
  match args with
  | [] => .error (.emptyArguments .compute)
  | first :: _ =>
    match first.asPack? with
    | none => .error (.notAPack .compute)
    | some [input, name] =>
      match name.asString?, input.asTensor? with
      | none, _ => .error (.notAString .compute 1)
      | some _, none => .error (.notATensor .compute 0)
      | some name, some input => .ok (input, name)
    | some entries => .error (.arityMismatch .compute 2 2 entries.length)

/-- An operator on booleans refuses any other element type. -/
def checkElement (op : String) (input : Tensor) : Except StrategyFault Unit :=
  if boolOperators.contains op && !input.element.isBool then
    .error (.typeMismatch input.name .bool input.element)
  else .ok ()

def run (op : String) (axes : List UInt64) (keepdim : Bool) (reduce : ReduceFunction)
    (args : Pack) : Except StrategyFault Pack :=
  match operands args with
  | .error fault => .error fault
  | .ok (input, name) =>
    match checkElement op input with
    | .error fault => .error fault
    | .ok () => .ok [.tensor (reduce input axes keepdim name)]

end Compute

/-- The compute function of operator `op`, which calls `reduce` along `axes`. Every architecture
computes the same way. -/
def buildCompute (op : String) (axes : List UInt64) (keepdim : Bool) (_arch : Arch)
    (reduce : ReduceFunction) (args : Pack) : Except StrategyError Pack :=
  (Compute.run op axes keepdim reduce args).mapError (.fault op)

end Reductions
