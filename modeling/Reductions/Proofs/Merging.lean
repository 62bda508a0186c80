import Mathlib.Data.List.Basic
import Reductions.Expr.Simplify
import Reductions.Program

/-!
# Merging and simplifying

Merging fuses the statements of the roots one level deep, flattening fuses blocks
at every level, and a root can become a block only by losing its loop. The order
of the two makes no difference, because simplification works on each statement of
a block by itself.
-/

namespace Reductions

namespace Expr

/-- Each statement of a block is simplified by itself, and is replaced by its statements if it
becomes a block. -/
theorem simplify_block (ss : List Expr) :
    (block ss).simplify = block (ss.flatMap fun s => s.simplify.statements) := by
  rw [simplify, removeUnitLoops, removeUnitLoopsAll_eq, flatten, flattenAll_eq, List.map_map,
    List.flatMap_map]
  rfl

theorem statements_simplify (e : Expr) :
    e.simplify.statements = e.statements.flatMap fun s => s.simplify.statements := by
  cases hblock : e.isBlock with
  | true =>
      cases e with
      | block ss => rw [simplify_block, statements, statements]
      | _ => cases hblock
  | false =>
      have hsingle : e.statements = [e] := by
        cases e with
        | block => cases hblock
        | _ => rfl
      rw [hsingle, List.flatMap_singleton]

end Expr

namespace Program

/-- The root that several roots are merged into; a single one stays as it is. -/
def mergedRoot : List Expr → Expr
  | [root] => root
  | roots => .block (roots.flatMap Expr.statements)

theorem merge_eq {roots : List Expr} (h : roots ≠ []) :
    (Program.mk roots).merge = (⟨[mergedRoot roots]⟩, .ok ()) := by
  cases roots with
  | nil => exact absurd rfl h
  | cons first rest => cases rest <;> rfl

theorem mergedRoot_of_ne_singleton {roots : List Expr} (h : ∀ root, roots ≠ [root]) :
    mergedRoot roots = .block (roots.flatMap Expr.statements) := by
  cases roots with
  | nil => rfl
  | cons first rest =>
      cases rest with
      | nil => exact absurd rfl (h first)
      | cons => rfl

theorem mergedRoot_map_simplify (roots : List Expr) :
    mergedRoot (roots.map Expr.simplify) = (mergedRoot roots).simplify := by
  by_cases hsingle : ∃ root, roots = [root]
  · -- A single root is left as it is, whether it is a block or not.
    obtain ⟨root, rfl⟩ := hsingle
    rfl
  · have hroots : ∀ root, roots ≠ [root] := fun root heq => hsingle ⟨root, heq⟩
    have hmapped : ∀ root, roots.map Expr.simplify ≠ [root] := by
      intro root heq
      obtain ⟨other, hother, _⟩ := List.map_eq_singleton_iff.1 heq
      exact hroots other hother
    have hstatements : (roots.map Expr.simplify).flatMap Expr.statements =
        (roots.flatMap Expr.statements).flatMap fun s => s.simplify.statements := by
      rw [List.flatMap_map, List.flatMap_assoc]
      exact List.flatMap_congr fun root _ => root.statements_simplify
    rw [mergedRoot_of_ne_singleton hmapped, mergedRoot_of_ne_singleton hroots, hstatements,
      Expr.simplify_block]

/-- Roots that are simplified and then merged give the tree that they give when they are merged and
then simplified. -/
theorem merge_map_simplify {roots : List Expr} (h : roots ≠ []) :
    ∃ root, (Program.mk roots).merge = (⟨[root]⟩, .ok ()) ∧
      (Program.mk (roots.map Expr.simplify)).merge = (⟨[root.simplify]⟩, .ok ()) := by
  have hmapped : roots.map Expr.simplify ≠ [] := by
    rw [ne_eq, List.map_eq_nil_iff]
    exact h
  refine ⟨mergedRoot roots, merge_eq h, ?_⟩
  rw [merge_eq hmapped, mergedRoot_map_simplify]

/-- A loop that runs once around blocks, a value, a block in a block and a store. -/
def unevenRoots : List Expr := [
  .loop "i" (.int 3) (.int 1) .empty (.block [
    .store "t" [.var "i"] (.int 1), .block [.store "t" [.int 0] (.int 2)]]),
  .int 5,
  .block [.block [.loop "k" (.int 0) (.int 1) .empty (.store "u" [.var "k"] (.int 1))],
    .loop "k" (.int 0) (.int 4) .empty (.block [.block [.store "u" [.var "k"] (.int 2)]])],
  .store "u" [.int 9] (.int 3)]

theorem merge_map_simplify_uneven :
    unevenRoots ≠ [] ∧
      (∃ root, (Program.mk unevenRoots).merge = (⟨[root]⟩, .ok ()) ∧
        (Program.mk (unevenRoots.map Expr.simplify)).merge = (⟨[root.simplify]⟩, .ok ())) ∧
      (Program.mk (unevenRoots.map Expr.simplify)).merge = (⟨[.block [
        .store "t" [.int 3] (.int 1), .store "t" [.int 0] (.int 2), .int 5,
        .store "u" [.int 0] (.int 1),
        .loop "k" (.int 0) (.int 4) .empty (.block [.store "u" [.var "k"] (.int 2)]),
        .store "u" [.int 9] (.int 3)]]⟩, .ok ()) := by
  have hne : unevenRoots ≠ [] := List.cons_ne_nil _ _
  exact ⟨hne, merge_map_simplify hne, by rfl⟩

end Program

end Reductions
