import Reductions.Reduction.Combiner

/-!
# Lowering a reduction to loops

A reduction becomes a block of two loop nests. The first writes the start value to every element of
the result; the second walks over every element of the source and combines it into its place in the
result. Loops over reduced axes carry the reduction mark. A dimension that `keepdim` keeps is a loop
that runs once.
-/

namespace Reductions

inductive LoweringError where
  | notAReduction (tensor : String)
deriving DecidableEq, Repr

def LoweringError.message : LoweringError → String
  | notAReduction tensor => "tensor `" ++ tensor ++ "` is not produced by a reduction"

namespace Lowering

def loopVar (stem : String) (i : Nat) : String :=
  stem ++ String.ofList (Numeral.ofNat i)

def loopVars (stem : String) (rank : Nat) : List Expr :=
  (List.range rank).map fun i => .var (loopVar stem i)

/-- Loops over the given dimensions, the first of which has number `i`, around `body`. -/
def nestFrom (stem : String) (marks : Nat → LoopMarks) (body : Expr) : Nat → List Dim → Expr
  | _, [] => body
  | i, dim :: dims =>
    .loop (loopVar stem i) (.int 0) dim.extent (marks i)
      (.block [nestFrom stem marks body (i + 1) dims])

def resultStem : String := "j"

def sourceStem : String := "i"

/-- The place in the result that source dimension `i` selects: its variable, or zero for a reduced
axis that is kept, or nothing. -/
def resultIndex? (axes : List UInt64) (keepdim : Bool) (loopVariable : Expr) (i : Nat) :
    Option Expr :=
  if containsAxis axes i then
    if keepdim then some (.int 0) else none
  else some loopVariable

/-- The element of the result that the current element of a source of this rank belongs to. -/
def resultIndices (axes : List UInt64) (keepdim : Bool) (rank : Nat) : List Expr :=
  match (loopVars sourceStem rank).zipIdx.filterMap fun (v, i) => resultIndex? axes keepdim v i with
  | [] => [.int 0]
  | indices => indices

/-- The nest that writes the start value to every element of the result. -/
def initNest (result : TensorHeader) (kind : ReductionKind) : Expr :=
  nestFrom resultStem (fun _ => .empty)
    (.store result.name (loopVars resultStem result.shape.rank) (kind.identity result.element))
    0 result.shape.dims

def combineStep (result : TensorHeader) (kind : ReductionKind) (source : Tensor)
    (axes : List UInt64) (keepdim : Bool) : Expr :=
  let place := resultIndices axes keepdim source.rank
  .store result.name place
    (.binary kind.combiner (.load result.name place)
      (.load source.name (loopVars sourceStem source.rank)))

def combineNest (result : TensorHeader) (kind : ReductionKind) (source : Tensor)
    (axes : List UInt64) (keepdim : Bool) : Expr :=
  nestFrom sourceStem (fun i => if containsAxis axes i then .reduction else .empty)
    (combineStep result kind source axes keepdim) 0 source.shape.dims

end Lowering

def Tensor.lower : Tensor → Except LoweringError Expr
  | .input header => .error (.notAReduction header.name)
  | .reduction header kind source axes keepdim =>
    .ok (.block [Lowering.initNest header kind,
      Lowering.combineNest header kind source axes keepdim])

theorem Tensor.lower_reduce (source : Tensor) (kind : ReductionKind) (axes : List UInt64)
    (keepdim : Bool) (name : String) :
    ∃ body, (source.reduce kind axes keepdim name).lower = .ok body :=
  ⟨_, rfl⟩

end Reductions
