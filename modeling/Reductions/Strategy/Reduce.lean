import Reductions.Strategy.Axes
import Reductions.Strategy.Basic
import Reductions.Strategy.Compute
import Reductions.Strategy.Schedule

/-!
# Reduction operators

The table of reduction operators, and how a strategy for one of them is built. A symbolic strategy,
whose shapes are not fully known yet, has no schedule and bounds its axes strictly.
-/

namespace Reductions

/-- Whether all shapes are known when the strategy is built. -/
inductive ShapeRegime where
  | static
  | symbolic
deriving DecidableEq, Repr, Inhabited

namespace ShapeRegime

def name : ShapeRegime → String
  | static => "static"
  | symbolic => "symbolic"

def axisBound (regime : ShapeRegime) (options : StrategyOptions) : AxisBound :=
  match regime with
  | static => options.staticAxisBound
  | symbolic => .exclusive

end ShapeRegime

structure OperatorCall where
  attrs : AttrStore
  inputs : List Tensor
  resultElements : List ElementType
  resultShapes : List Shape
  target : Target

abbrev StrategyBuilder := OperatorCall → Except StrategyError Strategy

structure ReductionOperator where
  name : String
  kind : ReductionKind
  reduce : ReduceFunction
  twoStep : BlockReduceFunction
  blockShuffle : BlockReduceFunction
  /-- The only element type that the operator takes, if there is such a restriction. -/
  element : Option ElementType

def describeElement : Option ElementType → String
  | none => "None"
  | some element => "Some(" ++ element.label ++ ")"

def implementationName (op : String) : String :=
  "strategy." ++ op ++ ".x86"

namespace ReductionOperator

def reduceSum : ReductionOperator where
  name := "reduce_sum"
  kind := .sum
  reduce := fun source => source.reduce .sum
  twoStep := Emitter.twoStep.emit .sum
  blockShuffle := Emitter.blockShuffle.emit .sum
  element := none

def reduceProd : ReductionOperator where
  name := "reduce_prod"
  kind := .prod
  reduce := fun source => source.reduce .prod
  twoStep := Emitter.twoStep.emit .prod
  blockShuffle := Emitter.blockShuffle.emit .prod
  element := none

def reduceMax : ReductionOperator where
  name := "reduce_max"
  kind := .max
  reduce := fun source => source.reduce .max
  twoStep := Emitter.twoStep.emit .max
  blockShuffle := Emitter.blockShuffle.emit .max
  element := none

def reduceMin : ReductionOperator where
  name := "reduce_min"
  kind := .min
  reduce := fun source => source.reduce .min
  twoStep := Emitter.twoStep.emit .min
  blockShuffle := Emitter.blockShuffle.emit .min
  element := none

def reduceAll : ReductionOperator where
  name := "reduce_all"
  kind := .all
  reduce := fun source => source.reduce .all
  twoStep := Emitter.twoStep.emit .all
  blockShuffle := Emitter.blockShuffle.emit .all
  element := some .bool

def reduceAny : ReductionOperator where
  name := "reduce_any"
  kind := .any
  reduce := fun source => source.reduce .any
  twoStep := Emitter.twoStep.emit .any
  blockShuffle := Emitter.blockShuffle.emit .any
  element := some .bool

def table : List ReductionOperator :=
  [reduceSum, reduceProd, reduceMax, reduceMin, reduceAll, reduceAny]

def find? (name : String) : Option ReductionOperator :=
  table.find? fun op => op.name == name

def describe (op : ReductionOperator) : String :=
  "ReduceEntry \x7b name: " ++ Text.quoted op.name ++ ", kind: " ++ op.kind.label ++ ", dtype: "
    ++ describeElement op.element ++ ", .. \x7d"

def emit (op : ReductionOperator) : Emitter → BlockReduceFunction
  | .naive => fun source axes keepdim name => [op.reduce source axes keepdim name]
  | .twoStep => op.twoStep
  | .blockShuffle => op.blockShuffle

def implementation (op : ReductionOperator) (regime : ShapeRegime) (options : StrategyOptions)
    (arch : Arch) (axes : ReduceAxes) : Implementation where
  name := implementationName op.name
  priority := options.priority
  compute := buildCompute op.name axes.axes axes.keepdim arch op.reduce
  schedule := match regime with
    | .static => some (buildSchedule op.name arch options)
    | .symbolic => none

/-- The strategy for one use of the operator: a single implementation, for the axes that the
attributes select in the first input. -/
def build (op : ReductionOperator) (regime : ShapeRegime) (options : StrategyOptions) :
    StrategyBuilder := fun call =>
  match call.inputs with
  | [] => .error (.fault op.name .missingInput)
  | input :: _ =>
    (resolveAxes op.name call.attrs input.rank (regime.axisBound options)).map fun axes =>
      Strategy.empty.add (op.implementation regime options call.target.arch axes)

theorem mem_table_iff {op : ReductionOperator} : op ∈ table ↔
    op = reduceSum ∨ op = reduceProd ∨ op = reduceMax ∨ op = reduceMin ∨ op = reduceAll ∨
      op = reduceAny := by
  simp [table]

theorem reduce_of_mem_table {op : ReductionOperator} (h : op ∈ table) :
    op.reduce = fun source => source.reduce op.kind := by
  rcases mem_table_iff.1 h with rfl | rfl | rfl | rfl | rfl | rfl <;> rfl

/-- The emitters in a row of the table are those of the kind in the same row. -/
theorem emit_of_mem_table {op : ReductionOperator} (h : op ∈ table) (emitter : Emitter) :
    op.emit emitter = emitter.emit op.kind := by
  rcases mem_table_iff.1 h with rfl | rfl | rfl | rfl | rfl | rfl <;> cases emitter <;> rfl

end ReductionOperator

end Reductions
