import Reductions.Proofs.LoopNest
import Reductions.Proofs.Occurrences

/-!
# Lowering computes the reduction

Running the loops of a reduction leaves in every element of the result the left
fold of the combiner over the elements of the source that belong to it, in
lexicographic order, and changes nothing else. This holds for every meaning of
the combiner and of the start value, so nothing is assumed about them.
-/

namespace Reductions

open Lowering

variable {V : Type} {I : Interpretation V}

/-! ## The start value -/

/-- What an accumulator starts from. -/
def ReductionKind.start (I : Interpretation V) (kind : ReductionKind) (element : ElementType) : V :=
  match kind.identity element with
  | .int n => I.int n
  | .float x => I.float x
  | .bool b => I.bool b
  | _ => I.int 0

theorem ReductionKind.identity_eq (kind : ReductionKind) (element : ElementType) :
    (∃ n, kind.identity element = .int n) ∨ (∃ x, kind.identity element = .float x) ∨
      ∃ b, kind.identity element = .bool b := by
  unfold identity constant
  cases kind <;> cases element.isFloat <;> simp

/-- What holds of all constants holds of a start value. -/
@[elab_as_elim]
theorem ReductionKind.identity_induct {motive : Expr → Prop} (int : ∀ n, motive (.int n))
    (float : ∀ x, motive (.float x)) (bool : ∀ b, motive (.bool b)) (kind : ReductionKind)
    (element : ElementType) : motive (kind.identity element) := by
  rcases kind.identity_eq element with ⟨n, h⟩ | ⟨x, h⟩ | ⟨b, h⟩
  · exact h ▸ int n
  · exact h ▸ float x
  · exact h ▸ bool b

theorem eval_identity (kind : ReductionKind) (element : ElementType) (env : Env)
    (mem : Memory V) : ((kind.identity element).eval I env mem).element = kind.start I element := by
  unfold ReductionKind.start
  rcases kind.identity_eq element with ⟨n, h⟩ | ⟨x, h⟩ | ⟨b, h⟩
  · rw [h]
    rfl
  · rw [h]
    rfl
  · rw [h]
    rfl

/-! ## The two nests -/

theorem exec_initNest {result : TensorHeader} (kind : ReductionKind) (h : result.shape.Bounded)
    (env : Env) (mem : Memory V) :
    (initNest result kind).exec I env mem =
      result.shape.indices.foldl
        (fun m o => m.write result.name o (kind.start I result.element)) mem := by
  rw [initNest, exec_nestFrom _ _ _ h]
  apply List.foldl_ext
  intro m o ho
  have hrank : result.shape.rank = o.length := (length_of_mem_places ho).symm
  rw [Expr.exec, eval_identity, hrank, evalIndex_loopVars]

theorem evalIndex_resultIndices (axes : List UInt64) (keepdim : Bool) (i : Index) (env : Env)
    (mem : Memory V) :
    Expr.evalIndex I (nestEnv sourceStem 0 i env) mem (resultIndices axes keepdim i.length) =
      collapse axes keepdim 0 i := by
  have hvars := evalIndex_loopVars (I := I) sourceStem i env mem
  rw [Expr.evalIndex_eq] at hvars
  rw [Expr.evalIndex_eq, resultIndices_eq, map_collapse, hvars]
  rfl

theorem exec_combineNest {result : TensorHeader} {source : Tensor} (kind : ReductionKind)
    (axes : List UInt64) (keepdim : Bool) (h : source.shape.Bounded) (env : Env)
    (mem : Memory V) :
    (combineNest result kind source axes keepdim).exec I env mem =
      source.shape.indices.foldl (fun m i =>
        m.write result.name (collapse axes keepdim 0 i)
          (I.apply kind.combiner (m result.name (collapse axes keepdim 0 i))
            (m source.name i))) mem := by
  rw [combineNest, exec_nestFrom _ _ _ h]
  apply List.foldl_ext
  intro m i hi
  have hrank : source.rank = i.length := (length_of_mem_places hi).symm
  rw [combineStep, Expr.exec, hrank, evalIndex_resultIndices, Expr.eval, Expr.eval, Expr.eval,
    evalIndex_resultIndices, evalIndex_loopVars]
  rfl

theorem writes_nestFrom (stem : String) (marks : Nat → LoopMarks) (body : Expr) (k : Nat)
    (dims : List Dim) : (nestFrom stem marks body k dims).writes = body.writes := by
  induction dims generalizing k with
  | nil => rfl
  | cons dim dims ih =>
      rw [nestFrom, Expr.writes, Expr.writes, Expr.writesAll, Expr.writesAll, ih,
        List.append_nil]

/-! ## The whole reduction -/

/-- What a run of the two nests leaves, with the elements that belong to a place given by what a
reduction leaves of their own. -/
theorem exec_nests {result : TensorHeader} {x : Tensor} {axes : List UInt64} {keepdim : Bool}
    (kind : ReductionKind) (hshape : result.shape = x.shape.reduced axes keepdim)
    (hbounded : x.shape.Bounded) (hname : x.name ≠ result.name) (env : Env) (mem : Memory V)
    (t : String) (o : Index) :
    (Expr.block [initNest result kind, combineNest result kind x axes keepdim]).exec I env mem t o =
      if t = result.name ∧ o ∈ result.shape.indices then
        ((x.shape.indices.filter (collapse axes keepdim 0 · = o)).map (mem x.name)).foldl
          (I.apply kind.combiner) (kind.start I result.element)
      else mem t o := by
  have hresult : result.shape.Bounded := by
    rw [hshape]
    exact hbounded.reduced axes keepdim
  have hinit (t : String) (o : Index) :
      (initNest result kind).exec I env mem t o =
        if t = result.name ∧ o ∈ result.shape.indices then kind.start I result.element
        else mem t o := by
    rw [exec_initNest kind hresult, foldl_write]
  -- The source is as it was when the second nest runs.
  have hsource : (initNest result kind).exec I env mem x.name = mem x.name := by
    funext i
    rw [hinit, if_neg fun h => hname h.1]
  rw [Expr.exec, Expr.execAll, Expr.execAll_singleton, exec_combineNest kind axes keepdim hbounded,
    foldl_combine hname, hsource, hinit, hinit]
  by_cases ht : t = result.name
  · by_cases ho : o ∈ result.shape.indices
    · rw [if_pos ht, if_pos ⟨rfl, ho⟩, if_pos ⟨ht, ho⟩]
    · -- No place of the source belongs to a place outside the result.
      have hnone : x.shape.indices.filter (collapse axes keepdim 0 · = o) = [] := by
        rw [List.filter_eq_nil_iff]
        intro i hi heq
        apply ho
        rw [← of_decide_eq_true heq, hshape, Shape.indices, Shape.reduced_dims]
        exact collapse_mem_places axes keepdim hi
      rw [if_pos ht, if_neg fun h => ho h.2, if_neg fun h => ho h.2, hnone, ht]
      rfl
  · rw [if_neg ht, if_neg fun h => ht h.1, if_neg fun h => ht h.1]

theorem exec_lowered {x : Tensor} {kind : ReductionKind} {axes : List UInt64} {keepdim : Bool}
    {name : String} {tree : Expr} (htree : (x.reduce kind axes keepdim name).lower = .ok tree)
    (hbounded : x.shape.Bounded) (hname : x.name ≠ name) (env : Env) (mem : Memory V) (t : String)
    (o : Index) :
    tree.exec I env mem t o =
      if t = name ∧ o ∈ (x.shape.reduced axes keepdim).indices then
        ((x.shape.indices.filter (collapse axes keepdim 0 · = o)).map (mem x.name)).foldl
          (I.apply kind.combiner) (kind.start I x.element)
      else mem t o := by
  obtain rfl := Except.ok.inj htree
  exact exec_nests kind rfl hbounded hname env mem t o

theorem filter_collapse {s : Shape} {axes : List UInt64} {keepdim : Bool} {o : Index}
    (ho : o ∈ (s.reduced axes keepdim).indices) :
    s.indices.filter (collapse axes keepdim 0 · = o) =
      s.indices.filter (Agrees (containsAxis axes) keepdim · o) := by
  rw [Shape.indices, Shape.reduced_dims] at ho
  apply List.filter_congr
  intro i hi
  rw [decide_eq_decide]
  exact collapse_eq_iff hi ho

/-- The loops of a reduction leave in each element of the result the fold over the elements of the
source that agree with it on the dimensions that are not reduced, in lexicographic order, and store
nowhere else. -/
theorem lower_reduce_folds (I : Interpretation V) (x : Tensor) (kind : ReductionKind)
    (axes : List UInt64) (keepdim : Bool) (name : String) (hbounded : x.shape.Bounded)
    (hname : name ≠ x.name) :
    ∃ tree, (x.reduce kind axes keepdim name).lower = .ok tree ∧
      (∀ t ∈ tree.writes, t = name) ∧
      ∀ (env : Env) (mem : Memory V),
        (∀ o ∈ (x.shape.reduced axes keepdim).indices,
          tree.exec I env mem name o =
            ((x.shape.indices.filter (Agrees (containsAxis axes) keepdim · o)).map
              (mem x.name)).foldl (I.apply kind.combiner) (kind.start I x.element)) ∧
        (∀ o ∉ (x.shape.reduced axes keepdim).indices,
          tree.exec I env mem name o = mem name o) ∧
        ∀ t ≠ name, tree.exec I env mem t = mem t := by
  obtain ⟨tree, htree⟩ := x.lower_reduce kind axes keepdim name
  refine ⟨tree, htree, ?_, fun env mem => ⟨?_, ?_, ?_⟩⟩
  · obtain rfl := Except.ok.inj htree
    simp only [Expr.writes, Expr.writesAll, initNest, combineNest, combineStep, writes_nestFrom,
      List.append_nil, List.mem_append, List.mem_singleton, or_self]
    intro t ht
    exact ht
  · intro o ho
    rw [exec_lowered htree hbounded hname.symm, if_pos ⟨rfl, ho⟩, filter_collapse ho]
  · intro o ho
    rw [exec_lowered htree hbounded hname.symm, if_neg fun h => ho h.2]
  · intro t ht
    funext o
    rw [exec_lowered htree hbounded hname.symm, if_neg fun h => ht h.1]

/-- Exact integers as elements, with one and zero for the booleans. -/
def exactIntegers : Interpretation Int where
  int := Int64.toInt
  float _ := 0
  bool b := if b then 1 else 0
  apply
    | .add, a, b => a + b
    | .sub, a, b => a - b
    | .mul, a, b | .and, a, b => a * b
    | .max, a, b | .or, a, b => max a b
    | .min, a, b => min a b
  toWord := Int64.ofInt

def grid : Tensor :=
  .input ⟨"x", ⟨[.fixed 2, .fixed 3]⟩, .int32⟩

def gridMemory : Memory Int
  | _, [row, column] => 10 * row.toInt + column.toInt
  | _, _ => 0

/-- The sums of the rows; the axis behind the last dimension does nothing. -/
theorem lower_reduce_folds_grid :
    grid.shape.Bounded ∧ "y" ≠ grid.name ∧
      ∃ tree, (grid.reduce .sum [1, 2] false "y").lower = .ok tree ∧
        ∀ env, tree.exec exactIntegers env gridMemory "y" [0] = 0 + 1 + 2 ∧
          tree.exec exactIntegers env gridMemory "y" [1] = 10 + 11 + 12 ∧
          tree.exec exactIntegers env gridMemory "y" [2] = 0 ∧
          tree.exec exactIntegers env gridMemory "x" = gridMemory "x" := by
  have hbounded : grid.shape.Bounded := by decide
  have hname : "y" ≠ grid.name := by decide
  obtain ⟨tree, htree, _, hrun⟩ :=
    lower_reduce_folds exactIntegers grid .sum [1, 2] false "y" hbounded hname
  refine ⟨hbounded, hname, tree, htree, fun env => ?_⟩
  obtain ⟨hinside, houtside, hothers⟩ := hrun env gridMemory
  refine ⟨?_, ?_, ?_, hothers "x" (by decide)⟩
  · rw [hinside [0] (by decide)]
    decide
  · rw [hinside [1] (by decide)]
    decide
  · rw [houtside [2] (by decide)]
    rfl

end Reductions
