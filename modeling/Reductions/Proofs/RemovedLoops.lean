import Reductions.Proofs.Iterations
import Reductions.Proofs.Placement

/-!
# What removed loops leave behind

Putting a value for a variable and folding constants work on the values of a
tree only: its loops and blocks stay where they are. So without the loops that
run once a tree has the other loops in their order, and where the body of every
loop is a block, each removed loop leaves one block in a block.
-/

namespace Reductions

/-- What tells a loop apart from others whatever its bounds become. -/
def Loop.label (l : Loop) : String × LoopMarks :=
  (l.name, l.marks)

namespace Expr

mutual

/-- The loops and blocks of a tree, without its values. -/
def frame : Expr → Expr
  | loop v _ _ marks body => loop v (int 0) (int 0) marks body.frame
  | block ss => block (frameAll ss)
  | _ => int 0

def frameAll : List Expr → List Expr
  | [] => []
  | s :: ss => s.frame :: frameAll ss

end

def Braced (e : Expr) : Prop :=
  ∀ v min extent marks body, StandsIn (.loop v min extent marks body) e → body.isBlock = true

/-! ## Frames -/

theorem frameAll_eq (ss : List Expr) : frameAll ss = ss.map frame := by
  induction ss with
  | nil => rfl
  | cons s ss ih => rw [frameAll, ih, List.map_cons]

theorem isBlock_frame (e : Expr) : e.frame.isBlock = e.isBlock := by
  cases e <;> rfl

theorem countNestedBlocks_frame (e : Expr) : e.frame.countNestedBlocks = e.countNestedBlocks := by
  induction e using Expr.induct with
  | int | float | bool | var | handle | binary | load | store => rfl
  | loop v min extent marks body _ _ ih => rw [frame, countNestedBlocks, countNestedBlocks, ih]
  | block ss ih =>
      rw [frame, countNestedBlocks, countNestedBlocks]
      induction ss with
      | nil => rfl
      | cons s ss ihss =>
          rw [frameAll, countNestedBlocksAll, countNestedBlocksAll, isBlock_frame,
            ih s List.mem_cons_self, ihss fun t ht => ih t (List.mem_cons_of_mem _ ht)]

theorem labels_frame (e : Expr) : e.frame.loops.map Loop.label = e.loops.map Loop.label := by
  induction e using Expr.induct with
  | int | float | bool | var | handle | binary | load | store => rfl
  | loop v min extent marks body _ _ ih =>
      rw [frame, loops, loops, List.map_cons, List.map_cons, ih]
      rfl
  | block ss ih =>
      rw [frame, loops, loops, loopsAll_eq, loopsAll_eq, frameAll_eq, List.flatMap_map,
        List.map_flatMap, List.map_flatMap]
      exact List.flatMap_congr ih

/-! ## Numbers of loops -/

theorem length_loops (e : Expr) : e.loops.length = e.countLoops := by
  induction e using Expr.induct with
  | int | float | bool | var | handle | binary | load | store => rfl
  | loop v min extent marks body _ _ ih => rw [loops, List.length_cons, countLoops, ih, Nat.add_comm]
  | block ss ih =>
      rw [loops, countLoops]
      induction ss with
      | nil => rfl
      | cons s ss ihss =>
          rw [loopsAll, List.length_append, countLoopsAll, ih s List.mem_cons_self,
            ihss fun t ht => ih t (List.mem_cons_of_mem _ ht)]

theorem countP_isUnit_loops (e : Expr) : e.loops.countP Loop.isUnit = e.countUnitLoops := by
  induction e using Expr.induct with
  | int | float | bool | var | handle | binary | load | store => rfl
  | loop v min extent marks body _ _ ih =>
      rw [loops, List.countP_cons, countUnitLoops, ih, Loop.isUnit]
      simp only [decide_eq_true_eq]
  | block ss ih =>
      rw [loops, countUnitLoops]
      induction ss with
      | nil => rfl
      | cons s ss ihss =>
          rw [loopsAll, List.countP_append, countUnitLoopsAll, ih s List.mem_cons_self,
            ihss fun t ht => ih t (List.mem_cons_of_mem _ ht)]

/-! ## Loops with blocks for bodies -/

theorem braced_loop {v : String} {min extent body : Expr} {marks : LoopMarks} :
    Braced (loop v min extent marks body) ↔ body.isBlock = true ∧ Braced body := by
  constructor
  · intro h
    exact ⟨h v min extent marks body .here, fun x lo n ms b hstands => h x lo n ms b (.body hstands)⟩
  · rintro ⟨hblock, hbody⟩ x lo n ms b hstands
    cases hstands with
    | here => exact hblock
    | body hstands => exact hbody x lo n ms b hstands

theorem braced_block {ss : List Expr} : Braced (block ss) ↔ ∀ s ∈ ss, Braced s := by
  constructor
  · intro h s hs x lo n ms b hstands
    exact h x lo n ms b (.statement hs hstands)
  · intro h x lo n ms b hstands
    cases hstands with
    | statement hs hstands => exact h _ hs x lo n ms b hstands

theorem isBlock_removeUnitLoops {e : Expr} (h : e.isBlock = true) :
    e.removeUnitLoops.isBlock = true := by
  cases e with
  | block ss => rfl
  | _ => cases h

end Expr

namespace IsValue

variable {e : Expr}

theorem frame_eq (h : IsValue e) : e.frame = .int 0 := by
  cases h <;> rfl

theorem loops_eq_nil (h : IsValue e) : e.loops = [] := by
  cases h <;> rfl

end IsValue

namespace Placed

variable {e r : Expr}

theorem frame_substitute (h : Placed e) (v : String) (hr : IsValue r) :
    (Expr.substitute v r e).frame = e.frame := by
  induction h with
  | value he => rw [(he.substitute v hr).frame_eq, he.frame_eq]
  | store => rfl
  | @loop x min extent marks body _ _ _ ih =>
      rw [Expr.substitute, Expr.frame, Expr.frame]
      by_cases hx : x = v
      · rw [if_pos hx]
      · rw [if_neg hx, ih]
  | block _ ih =>
      rw [Expr.substitute, Expr.substituteAll_eq, Expr.frame, Expr.frame, Expr.frameAll_eq,
        Expr.frameAll_eq, List.map_map]
      exact congrArg Expr.block (List.map_congr_left ih)

theorem frame_fold (h : Placed e) : e.fold.frame = e.frame := by
  induction h with
  | value he => rw [he.fold.frame_eq, he.frame_eq]
  | store => rfl
  | loop _ _ _ ih => rw [Expr.fold, Expr.frame, Expr.frame, ih]
  | block _ ih =>
      rw [Expr.fold, Expr.foldAll_eq, Expr.frame, Expr.frame, Expr.frameAll_eq, Expr.frameAll_eq,
        List.map_map]
      exact congrArg Expr.block (List.map_congr_left ih)

/-- The body that a loop leaves behind has the loops and blocks that it had before. -/
theorem frame_fold_substitute (h : Placed e) (v : String) (hr : IsValue r) :
    (Expr.substitute v r e).fold.frame = e.frame := by
  rw [(h.substitute v hr).frame_fold, h.frame_substitute v hr]

/-! ## The loops that are left -/

theorem labels_removeUnitLoops (h : Placed e) :
    e.removeUnitLoops.loops.map Loop.label =
      (e.loops.filter fun l => !l.isUnit).map Loop.label := by
  induction h with
  | value he => rw [he.removeUnitLoops_eq_self, he.loops_eq_nil, List.filter_nil]
  | store => rfl
  | @loop v min extent marks body hmin _ hbody ih =>
      rw [Expr.removeUnitLoops, Expr.loops, List.filter_cons]
      by_cases hunit : extent.asInt? = some 1
      · have hgone : (⟨v, extent, marks⟩ : Loop).isUnit = true := decide_eq_true hunit
        rw [if_pos hunit, hgone, ← Expr.labels_frame,
          hbody.removeUnitLoops.frame_fold_substitute v hmin, Expr.labels_frame, ih]
        rfl
      · have hkept : (⟨v, extent, marks⟩ : Loop).isUnit = false := decide_eq_false hunit
        rw [if_neg hunit, hkept, Expr.loops, List.map_cons, ih]
        rfl
  | block _ ih =>
      rw [Expr.removeUnitLoops, Expr.removeUnitLoopsAll_eq, Expr.loops, Expr.loops,
        Expr.loopsAll_eq, Expr.loopsAll_eq, List.flatMap_map, List.filter_flatMap,
        List.map_flatMap, List.map_flatMap]
      exact List.flatMap_congr ih

theorem labels_simplify (h : Placed e) :
    e.simplify.loops.map Loop.label = (e.loops.filter fun l => !l.isUnit).map Loop.label := by
  rw [Expr.simplify, Expr.loops_flatten, h.labels_removeUnitLoops]

/-! ## The blocks that are left -/

theorem countNestedBlocksAll_map_removeUnitLoops {ss : List Expr}
    (h : ∀ s ∈ ss,
      s.removeUnitLoops.countNestedBlocks + (if s.removeUnitLoops.isBlock then 1 else 0) =
        s.countNestedBlocks + (if s.isBlock then 1 else 0) + s.countUnitLoops) :
    Expr.countNestedBlocksAll (ss.map Expr.removeUnitLoops) =
      Expr.countNestedBlocksAll ss + Expr.countUnitLoopsAll ss := by
  induction ss with
  | nil => rfl
  | cons s ss ih =>
      have hhead := h s List.mem_cons_self
      have htail := ih fun t ht => h t (List.mem_cons_of_mem _ ht)
      rw [List.map_cons, Expr.countNestedBlocksAll, Expr.countNestedBlocksAll,
        Expr.countUnitLoopsAll]
      omega

/-- Seen as a statement of a block, a tree has one more block in a block for each loop that runs
once. Such a loop is no block, and its body is. -/
theorem countNestedBlocks_statement (h : Placed e) (hbraced : e.Braced) :
    e.removeUnitLoops.countNestedBlocks + (if e.removeUnitLoops.isBlock then 1 else 0) =
      e.countNestedBlocks + (if e.isBlock then 1 else 0) + e.countUnitLoops := by
  induction h with
  | value he =>
      rw [he.removeUnitLoops_eq_self, he.countUnitLoops_eq_zero, Nat.add_zero]
  | store => rfl
  | @loop v min extent marks body hmin _ hbody ih =>
      obtain ⟨hblock, hinner⟩ := Expr.braced_loop.1 hbraced
      have hleft := Expr.isBlock_removeUnitLoops hblock
      have hrest := ih hinner
      rw [hblock, hleft] at hrest
      rw [Expr.removeUnitLoops, Expr.countNestedBlocks, Expr.countUnitLoops]
      by_cases hunit : extent.asInt? = some 1
      · have hframe := hbody.removeUnitLoops.frame_fold_substitute v hmin
        rw [if_pos hunit, if_pos hunit, ← Expr.countNestedBlocks_frame, ← Expr.isBlock_frame, hframe,
          Expr.countNestedBlocks_frame, Expr.isBlock_frame, hleft]
        simp only [Expr.isBlock, Bool.false_eq_true, reduceIte] at hrest ⊢
        omega
      · rw [if_neg hunit, if_neg hunit, Expr.countNestedBlocks]
        simp only [Expr.isBlock, Bool.false_eq_true, reduceIte] at hrest ⊢
        omega
  | block _ ih =>
      rw [Expr.braced_block] at hbraced
      rw [Expr.removeUnitLoops, Expr.removeUnitLoopsAll_eq, Expr.countNestedBlocks,
        Expr.countNestedBlocks, Expr.countUnitLoops,
        countNestedBlocksAll_map_removeUnitLoops fun s hs => ih s hs (hbraced s hs)]
      simp only [Expr.isBlock]
      omega

theorem countNestedBlocks_removeUnitLoops (h : Placed e) (hbraced : e.Braced)
    (hblock : e.isBlock = true) :
    e.removeUnitLoops.countNestedBlocks = e.countNestedBlocks + e.countUnitLoops := by
  have hstatement := h.countNestedBlocks_statement hbraced
  rw [hblock, Expr.isBlock_removeUnitLoops hblock] at hstatement
  omega

end Placed

end Reductions
