import Reductions.Proofs.NormalForm
import Reductions.Proofs.ReductionMarks
import Reductions.Proofs.RemovedLoops

/-!
# Dimensions of size one

The loops of a lowered reduction are the dimensions of its result and then those
of its source. Simplification removes the loops over dimensions that are known
to have size one. One run is enough: it puts zero for their variables, so no
extent turns into one, not even where a symbol has the name of such a variable.
-/

namespace Reductions

namespace Lowering

variable {stem : String} {marks : Nat → LoopMarks} {body : Expr} {dims : List Dim}

/-- The loops over the dimensions that are not known to have size one, where `k` is the number of
the first dimension. -/
def remainingLabels (stem : String) (marks : Nat → LoopMarks) (k : Nat) (dims : List Dim) :
    List (String × LoopMarks) :=
  ((dims.zipIdx k).filter fun (dim, _) => dim != .fixed 1).map fun (_, d) =>
    (loopVar stem d, marks d)

/-! ## The form of a nest -/

theorem isValue_extent (dim : Dim) : IsValue dim.extent := by
  cases dim with
  | fixed size => exact .int _
  | symbol name => exact .var name

theorem isBlock_nestFrom (h : body.isBlock = false) (k : Nat) :
    (nestFrom stem marks body k dims).isBlock = false := by
  cases dims with
  | nil => exact h
  | cons dim dims => rfl

theorem placed_nestFrom (h : Placed body) (k : Nat) : Placed (nestFrom stem marks body k dims) := by
  induction dims generalizing k with
  | nil => exact h
  | cons dim dims ih =>
      refine .loop (.int 0) (isValue_extent dim) (.block ?_)
      simpa using ih (k + 1)

theorem braced_nestFrom (h : body.Braced) (k : Nat) : (nestFrom stem marks body k dims).Braced := by
  induction dims generalizing k with
  | nil => exact h
  | cons dim dims ih =>
      refine Expr.braced_loop.2 ⟨rfl, Expr.braced_block.2 ?_⟩
      simpa using ih (k + 1)

theorem countNestedBlocks_nestFrom (hnested : body.countNestedBlocks = 0)
    (hblock : body.isBlock = false) (k : Nat) :
    (nestFrom stem marks body k dims).countNestedBlocks = 0 := by
  induction dims generalizing k with
  | nil => exact hnested
  | cons dim dims ih =>
      rw [nestFrom, Expr.countNestedBlocks, Expr.countNestedBlocks, Expr.countNestedBlocksAll,
        Expr.countNestedBlocksAll, ih (k + 1), isBlock_nestFrom hblock]
      rfl

/-! ## The loops that run once -/

theorem isUnit_nestLoop (dim : Dim) (d : Nat) :
    (⟨loopVar stem d, dim.extent, marks d⟩ : Loop).isUnit = (dim == .fixed 1) := by
  rw [Loop.isUnit, beq_eq_decide]
  exact decide_eq_decide.2 Dim.asInt?_extent_eq_one_iff

theorem countP_zipIdx (p : Dim → Bool) (k : Nat) :
    (dims.zipIdx k).countP (fun (dim, _) => p dim) = dims.countP p := by
  calc (dims.zipIdx k).countP (fun (dim, _) => p dim)
      = ((dims.zipIdx k).map Prod.fst).countP p := by
        rw [List.countP_map]
        rfl
    _ = dims.countP p := by rw [List.zipIdx_map_fst]

theorem countP_isUnit_nestLoops (k : Nat) :
    (nestLoops stem marks k dims).countP Loop.isUnit = dims.count (.fixed 1) := by
  rw [nestLoops, List.countP_map, List.count, ← countP_zipIdx _ k]
  refine List.countP_congr fun p _ => ?_
  rw [Function.comp_apply, isUnit_nestLoop]

theorem labels_nestLoops (k : Nat) :
    ((nestLoops stem marks k dims).filter fun l => !l.isUnit).map Loop.label =
      remainingLabels stem marks k dims := by
  rw [nestLoops, List.filter_map, List.map_map, remainingLabels]
  have hkept : ((dims.zipIdx k).filter ((fun l => !l.isUnit) ∘ fun (dim, d) =>
      (⟨loopVar stem d, dim.extent, marks d⟩ : Loop))) =
        (dims.zipIdx k).filter fun (dim, _) => dim != .fixed 1 := by
    apply List.filter_congr
    rintro ⟨dim, d⟩ _
    rw [Function.comp_apply, isUnit_nestLoop]
    rfl
  rw [hkept]
  rfl

theorem length_remainingLabels (k : Nat) :
    (remainingLabels stem marks k dims).length = dims.countP (· != .fixed 1) := by
  rw [remainingLabels, List.length_map, ← List.countP_eq_length_filter]
  exact countP_zipIdx (· != .fixed 1) k

/-! ## What is put in for their variables -/

def ZeroOrSelf (bindings : List (String × Expr)) : Prop :=
  ∀ b ∈ bindings, b.2 = .int 0 ∨ b.2 = .var b.1

theorem ZeroOrSelf.shadow {bindings : List (String × Expr)} (h : ZeroOrSelf bindings) (v : String) :
    ZeroOrSelf (Expr.shadow v bindings) := by
  intro b hb
  obtain ⟨c, hc, rfl⟩ := List.mem_map.1 hb
  by_cases hv : v = c.1
  · rw [if_pos hv]
    exact .inr rfl
  · rw [if_neg hv]
    exact h c hc

theorem putIn_int (bindings : List (String × Expr)) (n : Int64) :
    Expr.putIn bindings (.int n) = .int n := by
  induction bindings with
  | nil => rfl
  | cons b bindings ih => exact ih

theorem putIn_var {bindings : List (String × Expr)} (h : ZeroOrSelf bindings) (x : String) :
    Expr.putIn bindings (.var x) = .int 0 ∨ Expr.putIn bindings (.var x) = .var x := by
  induction bindings with
  | nil => exact .inr rfl
  | cons b bindings ih =>
      have htail := ih fun c hc => h c (List.mem_cons_of_mem _ hc)
      rw [Expr.putIn, List.foldl_cons, Expr.substitute]
      by_cases hx : x = b.1
      · rw [if_pos hx]
        rcases h b List.mem_cons_self with hzero | hself
        · rw [hzero]
          exact .inl (putIn_int bindings 0)
        · rw [hself, ← hx]
          exact htail
      · rw [if_neg hx]
        exact htail

theorem asInt?_putIn_extent {bindings : List (String × Expr)} (h : ZeroOrSelf bindings) {dim : Dim}
    (hdim : dim.extent.asInt? ≠ some 1) : (Expr.putIn bindings dim.extent).asInt? ≠ some 1 := by
  cases dim with
  | fixed size =>
      rw [Dim.extent, putIn_int]
      exact hdim
  | symbol name =>
      rcases putIn_var h name with hzero | hself
      · rw [Dim.extent, hzero]
        decide
      · rw [Dim.extent, hself]
        exact nofun

theorem loopsStay_nestFrom (hbody : ∀ bindings, body.loopsStay bindings = true)
    {bindings : List (String × Expr)} (h : ZeroOrSelf bindings) (k : Nat) :
    (nestFrom stem marks body k dims).loopsStay bindings = true := by
  induction dims generalizing k bindings with
  | nil => exact hbody bindings
  | cons dim dims ih =>
      rw [nestFrom, Expr.loopsStay, Expr.loopsStay, Expr.loopsStay, Expr.loopsStayAll,
        Expr.loopsStayAll, Expr.loopsStayAll, Expr.loopsStayAll, Bool.and_true, Bool.and_true]
      by_cases hunit : dim.extent.asInt? = some 1
      · have hmore : ZeroOrSelf ((loopVar stem k, .int 0) :: bindings) := by
          intro b hb
          rcases List.mem_cons.1 hb with rfl | hb
          · exact .inl rfl
          · exact h b hb
        rw [if_pos hunit]
        exact ih hmore (k + 1)
      · rw [if_neg hunit, ih (h.shadow _) (k + 1), Bool.and_true, bne_iff_ne]
        exact asInt?_putIn_extent h hunit

end Lowering

/-! ## Lowered reductions -/

open Lowering

theorem isValue_loopVars (stem : String) (rank : Nat) : ∀ i ∈ loopVars stem rank, IsValue i := by
  intro i hi
  obtain ⟨d, _, rfl⟩ := List.mem_map.1 hi
  exact .var _

theorem placed_initNest (result : TensorHeader) (kind : ReductionKind) :
    Placed (initNest result kind) := by
  have hstart : IsValue (kind.identity result.element) :=
    ReductionKind.identity_induct .int .float .bool kind result.element
  exact placed_nestFrom (.store (isValue_loopVars _ _) hstart) 0

theorem placed_combineNest (result : TensorHeader) (kind : ReductionKind) (source : Tensor)
    (axes : List UInt64) (keepdim : Bool) : Placed (combineNest result kind source axes keepdim) := by
  have hplace : ∀ i ∈ resultIndices axes keepdim source.rank, IsValue i := by
    intro i hi
    rcases mem_resultIndices hi with rfl | hvar
    · exact .int 0
    · exact isValue_loopVars _ _ i hvar
  exact placed_nestFrom (.store hplace (.binary (.load hplace) (.load (isValue_loopVars _ _)))) 0

/-- A block of loops that no block interrupts: each loop has a block for its body, no block stands
in a block, and no loop comes to run once. -/
structure Expr.Regular (e : Expr) : Prop where
  block : e.isBlock = true
  placed : Placed e
  braced : e.Braced
  flat : e.countNestedBlocks = 0
  stays : e.loopsStay [] = true

section Nests

variable (result : TensorHeader) (kind : ReductionKind) (source : Tensor) (axes : List UInt64)
  (keepdim : Bool)

theorem regular_nests :
    (Expr.block [initNest result kind, combineNest result kind source axes keepdim]).Regular where
  block := rfl
  placed := .block (by simpa using ⟨placed_initNest _ _, placed_combineNest _ _ _ _ _⟩)
  braced := by
    have hstore (t : String) (is : List Expr) (e : Expr) : (Expr.store t is e).Braced := nofun
    rw [Expr.braced_block]
    simpa using ⟨braced_nestFrom (hstore _ _ _) 0, braced_nestFrom (hstore _ _ _) 0⟩
  flat := by
    have hinit : (initNest result kind).countNestedBlocks = 0 ∧
        (initNest result kind).isBlock = false :=
      ⟨countNestedBlocks_nestFrom rfl rfl 0, isBlock_nestFrom rfl 0⟩
    have hcombine : (combineNest result kind source axes keepdim).countNestedBlocks = 0 ∧
        (combineNest result kind source axes keepdim).isBlock = false :=
      ⟨countNestedBlocks_nestFrom rfl rfl 0, isBlock_nestFrom rfl 0⟩
    rw [Expr.countNestedBlocks, Expr.countNestedBlocksAll_eq_zero_iff]
    simpa using ⟨hinit, hcombine⟩
  stays := by
    have hnone : ZeroOrSelf [] := by simp [ZeroOrSelf]
    rw [Expr.loopsStay, Expr.loopsStayAll_eq_true_iff]
    simpa using ⟨loopsStay_nestFrom (fun _ => rfl) hnone 0, loopsStay_nestFrom (fun _ => rfl) hnone 0⟩

theorem loops_nests :
    (Expr.block [initNest result kind, combineNest result kind source axes keepdim]).loops =
      nestLoops resultStem (fun _ => .empty) 0 result.shape.dims ++
        nestLoops sourceStem (fun i => if containsAxis axes i then .reduction else .empty) 0
          source.shape.dims := by
  rw [Expr.loops, Expr.loopsAll, Expr.loopsAll, Expr.loopsAll, List.append_nil]
  exact congrArg₂ _ (loops_nestFrom rfl 0) (loops_nestFrom rfl 0)

theorem countLoops_nests :
    (Expr.block [initNest result kind, combineNest result kind source axes keepdim]).countLoops =
      result.shape.rank + source.shape.rank := by
  rw [← Expr.length_loops, loops_nests, List.length_append, length_nestLoops, length_nestLoops]
  rfl

theorem countUnitLoops_nests :
    (Expr.block
        [initNest result kind, combineNest result kind source axes keepdim]).countUnitLoops =
      result.shape.dims.count (.fixed 1) + source.shape.dims.count (.fixed 1) := by
  rw [← Expr.countP_isUnit_loops, loops_nests, List.countP_append, countP_isUnit_nestLoops,
    countP_isUnit_nestLoops]

theorem labels_simplify_nests :
    (Expr.block
        [initNest result kind, combineNest result kind source axes keepdim]).simplify.loops.map
          Loop.label =
      remainingLabels resultStem (fun _ => .empty) 0 result.shape.dims ++
        remainingLabels sourceStem (fun i => if containsAxis axes i then .reduction else .empty) 0
          source.shape.dims := by
  rw [(regular_nests result kind source axes keepdim).placed.labels_simplify, loops_nests,
    List.filter_append, List.map_append, labels_nestLoops, labels_nestLoops]

end Nests

namespace Expr.Regular

variable {e : Expr}

theorem simplifyStats_eq (h : e.Regular) :
    e.simplifyStats = ⟨e.countUnitLoops, e.countUnitLoops⟩ := by
  rw [simplifyStats, h.placed.countNestedBlocks_removeUnitLoops h.braced h.block, h.flat,
    Nat.zero_add]

theorem countUnitLoops_simplify (h : e.Regular) : e.simplify.countUnitLoops = 0 :=
  (Expr.countUnitLoops_simplify h.placed).2 h.stays

theorem isBlock_simplify (h : e.Regular) : e.simplify.isBlock = true := by
  rw [simplify, isBlock_flatten]
  exact isBlock_removeUnitLoops h.block

end Expr.Regular

/-- Lowering gives a loop for each dimension of the result and each of the source. Simplification
removes the loops over dimensions that are known to have size one, and flattens the block that each
of them leaves. The others keep their order, variables and marks. One run gives a block without a
block in a block and without a loop that runs once, which another run leaves alone. -/
theorem lower_reduce_units (x : Tensor) (kind : ReductionKind) (axes : List UInt64)
    (keepdim : Bool) (name : String) :
    ∃ tree, (x.reduce kind axes keepdim name).lower = .ok tree ∧
      let result := (x.reduce kind axes keepdim name).shape
      let units := result.dims.count (.fixed 1) + x.shape.dims.count (.fixed 1)
      tree.countLoops = result.rank + x.shape.rank ∧
      tree.simplifyStats = ⟨units, units⟩ ∧
      tree.simplify.countLoops =
        result.dims.countP (· != .fixed 1) + x.shape.dims.countP (· != .fixed 1) ∧
      tree.simplify.loops.map Loop.label =
        remainingLabels resultStem (fun _ => .empty) 0 result.dims ++
          remainingLabels sourceStem (fun i => if containsAxis axes i then .reduction else .empty)
            0 x.shape.dims ∧
      (∀ v min marks body, ¬ StandsIn (.loop v min (.int 1) marks body) tree.simplify) ∧
      tree.simplify.isBlock = true ∧
      (∀ ss, StandsIn (.block ss) tree.simplify → ∀ s ∈ ss, s.isBlock = false) ∧
      tree.simplify.simplifyStats = .zero ∧ tree.simplify.simplify = tree.simplify := by
  let result : TensorHeader := ⟨name, x.shape.reduced axes keepdim, x.element⟩
  have hregular := regular_nests result kind x axes keepdim
  have hcount := countLoops_nests result kind x axes keepdim
  have hunits := countUnitLoops_nests result kind x axes keepdim
  have hlabels := labels_simplify_nests result kind x axes keepdim
  generalize hnests : Expr.block _ = tree at hregular hcount hunits hlabels
  have hleft : tree.simplify.countLoops =
      result.shape.dims.countP (· != .fixed 1) + x.shape.dims.countP (· != .fixed 1) := by
    rw [← Expr.length_loops, ← List.length_map (f := Loop.label), hlabels, List.length_append,
      length_remainingLabels, length_remainingLabels]
  have hnone := hregular.countUnitLoops_simplify
  have hflat : tree.simplify.countNestedBlocks = 0 :=
    Expr.countNestedBlocks_flatten tree.removeUnitLoops
  have hdone : tree.simplify.simplifyStats = .zero := (Expr.simplifyStats_simplify tree).2 hnone
  refine ⟨tree, congrArg Except.ok hnests, hcount, ?_, hleft, hlabels,
    Expr.countUnitLoops_eq_zero_iff.1 hnone, hregular.isBlock_simplify,
    Expr.countNestedBlocks_eq_zero_iff.1 hflat, hdone,
    (Expr.simplify_eq_self_iff hregular.placed.simplify).2 hdone⟩
  rw [hregular.simplifyStats_eq, hunits]
  rfl

end Reductions
