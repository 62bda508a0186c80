import Reductions.Tensor.Basic

/-!
# Emitters

An emitter expresses one reduction as a list of tensors, the last of which is the result.
-/

namespace Reductions

abbrev ReduceFunction := Tensor → List UInt64 → Bool → String → Tensor

/-- Makes the tensors that reduce a source along axes, the last of them with the given name. -/
abbrev BlockReduceFunction := Tensor → List UInt64 → Bool → String → List Tensor

inductive Emitter where
  | naive
  /-- The innermost axis goes into a temporary that keeps every dimension, the others follow. -/
  | twoStep
  /-- One reduction, meant to run within a block of threads. -/
  | blockShuffle
deriving DecidableEq, Repr, Inhabited

namespace Emitter

def all : List Emitter :=
  [naive, twoStep, blockShuffle]

def name : Emitter → String
  | naive => "naive"
  | twoStep => "two-step"
  | blockShuffle => "block-shuffle"

def temporary (name : String) : String :=
  name ++ "_tmp"

def emit (emitter : Emitter) (kind : ReductionKind) (source : Tensor) (axes : List UInt64)
    (keepdim : Bool) (name : String) : List Tensor :=
  match emitter, axes.getLast? with
  | twoStep, some last =>
    let partialResult := source.reduce kind [last] true (temporary name)
    [partialResult, partialResult.reduce kind axes keepdim name]
  | _, _ => [source.reduce kind axes keepdim name]

theorem mem_all (e : Emitter) : e ∈ all := by
  cases e <;> decide

end Emitter

end Reductions
