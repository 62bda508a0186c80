import Reductions.Proofs.Placement
import Reductions.Proofs.Simplification

/-!
# What flattening keeps

Where the blocks of a tree begin and end makes no difference to which statements
it has and in which order they stand. The outline of a tree lists them, a loop as
its head, its body and its end. Flattening keeps the outline, and the blocks that
it takes away are the ones that it counts.
-/

namespace Reductions

/-- What is met on the way through the statements of a tree, apart from blocks. -/
inductive Landmark where
  /-- A loop begins, with its body behind it. -/
  | head (v : String) (min extent : Expr) (marks : LoopMarks)
  /-- The body of the last loop that has begun is over. -/
  | close
  /-- A statement that is neither a loop nor a block. -/
  | single (s : Expr)

namespace Expr

mutual

def outline : Expr → List Landmark
  | loop v min extent marks body => .head v min extent marks :: (body.outline ++ [.close])
  | block ss => outlineAll ss
  | e => [.single e]

def outlineAll : List Expr → List Landmark
  | [] => []
  | s :: ss => s.outline ++ outlineAll ss

end

mutual

def countBlocks : Expr → Nat
  | binary _ lhs rhs => lhs.countBlocks + rhs.countBlocks
  | load _ indices => countBlocksAll indices
  | store _ indices value => countBlocksAll indices + value.countBlocks
  | loop _ min extent _ body => min.countBlocks + extent.countBlocks + body.countBlocks
  | block ss => 1 + countBlocksAll ss
  | int _ | float _ | bool _ | var _ | handle _ => 0

def countBlocksAll : List Expr → Nat
  | [] => 0
  | e :: es => e.countBlocks + countBlocksAll es

end

/-! ## The outline -/

theorem outlineAll_eq (ss : List Expr) : outlineAll ss = ss.flatMap outline := by
  induction ss with
  | nil => rfl
  | cons s ss ih => rw [outlineAll, ih, List.flatMap_cons]

theorem outline_statements (e : Expr) : e.statements.flatMap outline = e.outline := by
  cases e with
  | block ss => rw [statements, outline, outlineAll_eq]
  | _ => simp [statements]

theorem outline_flatten (e : Expr) : e.flatten.outline = e.outline := by
  induction e using Expr.induct with
  | int | float | bool | var | handle | binary | load | store => rfl
  | loop v min extent marks body _ _ ih => rw [flatten, outline, outline, ih]
  | block ss ih =>
      rw [flatten, outline, outline, outlineAll_eq, outlineAll_eq, flattenAll_eq,
        List.flatMap_assoc, List.flatMap_map]
      refine List.flatMap_congr fun s hs => ?_
      rw [outline_statements, ih s hs]

/-! ## The number of blocks -/

theorem countBlocksAll_append (as bs : List Expr) :
    countBlocksAll (as ++ bs) = countBlocksAll as + countBlocksAll bs := by
  induction as with
  | nil => simp [countBlocksAll]
  | cons a as ih => simp [countBlocksAll, ih, Nat.add_assoc]

theorem countBlocksAll_statements (e : Expr) :
    countBlocksAll e.statements + (if e.isBlock then 1 else 0) = e.countBlocks := by
  cases e with
  | block ss => exact Nat.add_comm _ _
  | _ => simp [statements, isBlock, countBlocksAll]

theorem countBlocksAll_flattenAll {ss : List Expr}
    (h : ∀ s ∈ ss, s.flatten.countBlocks + s.countNestedBlocks = s.countBlocks) :
    countBlocksAll (flattenAll ss) + countNestedBlocksAll ss = countBlocksAll ss := by
  induction ss with
  | nil => rfl
  | cons s ss ih =>
      have hhead := h s List.mem_cons_self
      have htail := ih fun t ht => h t (List.mem_cons_of_mem _ ht)
      have hspliced := countBlocksAll_statements s.flatten
      rw [isBlock_flatten] at hspliced
      rw [flattenAll, countBlocksAll_append, countNestedBlocksAll, countBlocksAll]
      omega

theorem countBlocks_flatten (e : Expr) :
    e.flatten.countBlocks + e.countNestedBlocks = e.countBlocks := by
  induction e using Expr.induct with
  | int | float | bool | var | handle | binary | load | store => rfl
  | loop v min extent marks body _ _ ih =>
      rw [flatten, countBlocks, countNestedBlocks, countBlocks, ← ih]
      omega
  | block ss ih =>
      rw [flatten, countBlocks, countNestedBlocks, countBlocks, ← countBlocksAll_flattenAll ih]
      omega

/-- Flattening leaves no block in a block. It does not change what the tree does nor which other
statements it has and in which order, takes away as many blocks as it counts, and has nothing to do
a second time. -/
theorem flatten_lossless (e : Expr) :
    (∀ ss, StandsIn (.block ss) e.flatten → ∀ s ∈ ss, s.isBlock = false) ∧
    (∀ (V : Type) (I : Interpretation V) (env : Env) (mem : Memory V),
      e.flatten.exec I env mem = e.exec I env mem) ∧
    e.flatten.outline = e.outline ∧
    e.flatten.countBlocks + e.countNestedBlocks = e.countBlocks ∧
    e.flatten.countNestedBlocks = 0 ∧ e.flatten.flatten = e.flatten := by
  have hnone : e.flatten.countNestedBlocks = 0 := countNestedBlocks_flatten e
  refine ⟨countNestedBlocks_eq_zero_iff.1 hnone, fun V I env mem => exec_flatten I e env mem,
    outline_flatten e, countBlocks_flatten e, hnone, flatten_eq_self hnone⟩

end Expr

end Reductions
