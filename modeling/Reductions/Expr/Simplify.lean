import Reductions.Expr.Flatten
import Reductions.Expr.UnitLoops

/-!
# Simplification

The two structural clean-ups in their order, each with a count of what it changed: loops that run
once are removed, then blocks are flattened.
-/

namespace Reductions

structure SimplifyStats where
  loopsRemoved : Nat
  blocksFlattened : Nat
deriving DecidableEq, Repr

namespace SimplifyStats

def zero : SimplifyStats := ⟨0, 0⟩

def merge (a b : SimplifyStats) : SimplifyStats :=
  ⟨a.loopsRemoved + b.loopsRemoved, a.blocksFlattened + b.blocksFlattened⟩

def hasChanges (s : SimplifyStats) : Bool :=
  0 < s.loopsRemoved || 0 < s.blocksFlattened

theorem hasChanges_eq_false_iff {s : SimplifyStats} : s.hasChanges = false ↔ s = zero := by
  obtain ⟨removed, flattened⟩ := s
  simp [hasChanges, zero]

end SimplifyStats

namespace Expr

/-- Removes the loops that run once and flattens blocks. -/
def simplify (e : Expr) : Expr :=
  e.removeUnitLoops.flatten

def simplifyStats (e : Expr) : SimplifyStats :=
  ⟨e.countUnitLoops, e.removeUnitLoops.countNestedBlocks⟩

end Expr

end Reductions
