import Mathlib.Data.List.Basic
import Mathlib.Data.List.Nodup
import Reductions.Proofs.IndexSpace

/-!
# Splitting an index space

A reduction whose last axis is reduced first goes through an intermediate
tensor in which this axis is kept with one place. The source places behind a
place of the result are then the blocks behind the intermediate places, one
after another: as the last axis is the innermost reduced one and everything
inside it is fixed by the result, the order of the source places is kept.
-/

namespace Reductions

/-! ## Lists -/

theorem length_project_true {α : Type} (reduced : Nat → Bool) (unit : α) (xs : List α) :
    (project reduced true unit xs).length = xs.length := by
  induction xs generalizing reduced with
  | nil => rfl
  | cons x xs ih =>
      rw [project, List.length_append, ih]
      by_cases hreduced : reduced 0
      · simp [hreduced, Nat.add_comm]
      · simp [hreduced, Nat.add_comm]

/-! ## The places behind a place of the result -/

section Collapse

variable {α : Type} {axes : List UInt64} {keepdim : Bool}

theorem collapse_true_cons (axes : List UInt64) (unit x : α) (xs : List α) :
    collapse axes true unit (x :: xs) = project (containsAxis axes) true unit (x :: xs) := by
  have hlength := length_project_true (containsAxis axes) unit (x :: xs)
  rw [collapse]
  cases hlist : project (containsAxis axes) true unit (x :: xs) with
  | nil => simp [hlist] at hlength
  | cons y ys => rfl

end Collapse

/-! ## Blocks are all empty or all non-empty -/

end Reductions
