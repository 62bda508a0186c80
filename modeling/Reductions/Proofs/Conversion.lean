import Reductions.Proofs.IntegerTypes
import Reductions.Proofs.Reduction

/-!
# Execution with converted stores

Every tensor has an element type, and a value that is stored is converted to
it. The loops of a reduction store a constant or the result of one operation,
so running them with converted stores is running them under the interpretation
whose constants and operations give converted elements.
-/

namespace Reductions

open Lowering

variable {V : Type}

namespace Expr

mutual

/-- The memory after the tree has run, where every stored element is converted first. -/
def execInto (I : Interpretation V) (convert : V → V) : Expr → Env → Memory V → Memory V
  | store tensor indices value, env, mem =>
    mem.write tensor (evalIndex I env mem indices) (convert (value.eval I env mem).element)
  | loop v min extent _ body, env, mem =>
    (trips (min.eval I env mem).word (extent.eval I env mem).word).foldl
      (fun m w => body.execInto I convert (Function.update env v w) m) mem
  | block ss, env, mem => execIntoAll I convert ss env mem
  | _, _, mem => mem

def execIntoAll (I : Interpretation V) (convert : V → V) :
    List Expr → Env → Memory V → Memory V
  | [], _, mem => mem
  | s :: ss, env, mem => execIntoAll I convert ss env (s.execInto I convert env mem)

end

end Expr

def Interpretation.converted (I : Interpretation V) (convert : V → V) : Interpretation V where
  int n := convert (I.int n)
  float x := convert (I.float x)
  bool b := convert (I.bool b)
  apply op a b := convert (I.apply op a b)
  toWord := I.toWord

variable {I : Interpretation V} {convert : V → V}

theorem Expr.execIntoAll_eq (ss : List Expr) (env : Env) (mem : Memory V) :
    execIntoAll I convert ss env mem = ss.foldl (fun m s => s.execInto I convert env m) mem := by
  induction ss generalizing mem with
  | nil => rfl
  | cons s ss ih => rw [execIntoAll, ih, List.foldl_cons]

theorem Expr.execInto_id (e : Expr) (env : Env) (mem : Memory V) :
    e.execInto I id env mem = e.exec I env mem := by
  induction e using Expr.induct generalizing env mem with
  | int | float | bool | var | handle | binary | load | store => rfl
  | loop v min extent marks body _ _ ih =>
      rw [execInto, exec]
      apply List.foldl_ext
      intro m w _
      exact ih _ m
  | block ss ih =>
      rw [execInto, exec, execIntoAll_eq, execAll_eq]
      apply List.foldl_ext
      intro m s hs
      exact ih s hs env m

/-! ## The nests of a reduction -/

namespace Lowering

theorem evalIndex_loopVars_converted (stem : String) (rank : Nat) (env : Env) (mem : Memory V) :
    Expr.evalIndex (I.converted convert) env mem (loopVars stem rank) =
      Expr.evalIndex I env mem (loopVars stem rank) := by
  rw [Expr.evalIndex_eq, Expr.evalIndex_eq]
  apply List.map_congr_left
  intro e he
  obtain ⟨d, _, rfl⟩ := List.mem_map.1 he
  rfl

theorem evalIndex_resultIndices_converted (axes : List UInt64) (keepdim : Bool) (rank : Nat)
    (env : Env) (mem : Memory V) :
    Expr.evalIndex (I.converted convert) env mem (resultIndices axes keepdim rank) =
      Expr.evalIndex I env mem (resultIndices axes keepdim rank) := by
  rw [Expr.evalIndex_eq, Expr.evalIndex_eq]
  apply List.map_congr_left
  intro e he
  rcases mem_resultIndices he with rfl | hvar
  · rfl
  · obtain ⟨d, _, rfl⟩ := List.mem_map.1 hvar
    rfl

theorem start_converted (kind : ReductionKind) (element : ElementType) :
    kind.start (I.converted convert) element = convert (kind.start I element) := by
  unfold ReductionKind.start
  rcases kind.identity_eq element with ⟨n, h⟩ | ⟨x, h⟩ | ⟨b, h⟩
  · rw [h]
    rfl
  · rw [h]
    rfl
  · rw [h]
    rfl

theorem execInto_nestFrom (stem : String) (marks : Nat → LoopMarks) {body : Expr}
    (hbody : ∀ env mem, body.execInto I convert env mem = body.exec (I.converted convert) env mem)
    (k : Nat) (dims : List Dim) (env : Env) (mem : Memory V) :
    (nestFrom stem marks body k dims).execInto I convert env mem =
      (nestFrom stem marks body k dims).exec (I.converted convert) env mem := by
  induction dims generalizing k env mem with
  | nil => exact hbody env mem
  | cons dim dims ih =>
      -- Bounds are words, which the interpretations read alike.
      have hextent : (dim.extent.eval (I.converted convert) env mem).word =
          (dim.extent.eval I env mem).word := by
        cases dim <;> rfl
      rw [nestFrom, Expr.execInto, Expr.exec, hextent]
      apply List.foldl_ext
      intro m w _
      rw [Expr.execInto, Expr.exec]
      exact ih (k + 1) _ m

theorem execInto_initNest (result : TensorHeader) (kind : ReductionKind) (env : Env)
    (mem : Memory V) :
    (initNest result kind).execInto I convert env mem =
      (initNest result kind).exec (I.converted convert) env mem := by
  apply execInto_nestFrom
  intro env mem
  rw [Expr.execInto, Expr.exec, eval_identity, eval_identity, start_converted,
    evalIndex_loopVars_converted]

theorem execInto_combineNest (result : TensorHeader) (kind : ReductionKind) (source : Tensor)
    (axes : List UInt64) (keepdim : Bool) (env : Env) (mem : Memory V) :
    (combineNest result kind source axes keepdim).execInto I convert env mem =
      (combineNest result kind source axes keepdim).exec (I.converted convert) env mem := by
  apply execInto_nestFrom
  intro env mem
  rw [combineStep, Expr.execInto, Expr.exec, Expr.eval, Expr.eval, Expr.eval, Expr.eval, Expr.eval,
    Expr.eval, evalIndex_resultIndices_converted, evalIndex_loopVars_converted]
  rfl

end Lowering

/-! ## Reductions in an integer type -/

theorem execInto_lowered {x : Tensor} {kind : ReductionKind} {axes : List UInt64} {keepdim : Bool}
    {name : String} {tree : Expr} (htree : (x.reduce kind axes keepdim name).lower = .ok tree)
    (hbounded : x.shape.Bounded) (hname : name ≠ x.name) (env : Env) (mem : Memory V) {o : Index}
    (ho : o ∈ (x.shape.reduced axes keepdim).indices) :
    tree.execInto I convert env mem name o =
      ((x.shape.indices.filter (Agrees (containsAxis axes) keepdim · o)).map (mem x.name)).foldl
        (fun a b => convert (I.apply kind.combiner a b)) (convert (kind.start I x.element)) := by
  have hrun : tree.execInto I convert env mem = tree.exec (I.converted convert) env mem := by
    obtain rfl := Except.ok.inj htree
    rw [Expr.execInto, Expr.execIntoAll_eq, Expr.exec, Expr.execAll_eq]
    simp only [List.foldl_cons, List.foldl_nil, execInto_initNest, execInto_combineNest]
  rw [hrun, exec_lowered htree hbounded hname.symm, if_pos ⟨rfl, ho⟩, filter_collapse ho,
    start_converted]
  rfl

/-- Stored in the element type of its source a reduction leaves the right integer in every element
of the result that some element of the source belongs to, with one exception: the start values of
the extremes are the ends of `int64`, which the narrower signed types truncate to zero and minus
one. In these types a maximum is right when one of its elements is not negative, and a minimum when
one of them is. -/
theorem lower_reduce_truncates (d : IntegerType) {kind : ReductionKind}
    (hkind : kind.isLogical = false) {x : Tensor} (helement : x.element = d.element)
    (axes : List UInt64) (keepdim : Bool) {name : String} (hbounded : x.shape.Bounded)
    (hname : name ≠ x.name) :
    (d.Neutral kind ↔ (kind = .max ∨ kind = .min → d = .int64)) ∧
      ∃ tree, (x.reduce kind axes keepdim name).lower = .ok tree ∧
        ∀ (env : Env) (mem : Memory Int), (∀ i ∈ x.shape.indices, d.Holds (mem x.name i)) →
          ∀ o ∈ (x.shape.reduced axes keepdim).indices, ∀ elements,
            (x.shape.indices.filter (Agrees (containsAxis axes) keepdim · o)).map (mem x.name) =
              elements → elements ≠ [] →
            (d.reduction? kind elements =
                some (tree.execInto exactIntegers d.wrap env mem name o) ↔
              (kind = .max → (d = .int64 ∨ d = .uint8) ∨ ∃ n ∈ elements, 0 ≤ n) ∧
                (kind = .min → (d = .int64 ∨ d = .uint8) ∨ ∃ n ∈ elements, n < 0)) := by
  obtain ⟨tree, htree⟩ := x.lower_reduce kind axes keepdim name
  refine ⟨IntegerType.neutral_iff hkind, tree, htree, ?_⟩
  intro env mem hmem o ho elements helements hne
  have hholds : ∀ n ∈ elements, d.Holds n := by
    intro n hn
    rw [← helements] at hn
    obtain ⟨i, hi, rfl⟩ := List.mem_map.1 hn
    exact hmem i (List.mem_filter.1 hi).1
  have hresult : tree.execInto exactIntegers d.wrap env mem name o =
      d.truncatedFold kind elements := by
    rw [execInto_lowered htree hbounded hname env mem ho, helements, helement]
    rfl
  rw [hresult]
  exact IntegerType.reduction?_eq_truncatedFold_iff hkind hne hholds

def byteGrid : Tensor :=
  .input ⟨"x", ⟨[.fixed 2, .fixed 2]⟩, .int8⟩

def byteMemory : Memory Int
  | _, [0, 0] => -5
  | _, [0, 1] => 3
  | _, [1, 0] => -7
  | _, _ => -2

theorem lower_reduce_truncates_bytes :
    ReductionKind.max.isLogical = false ∧ byteGrid.element = IntegerType.int8.element ∧
      byteGrid.shape.Bounded ∧ "y" ≠ byteGrid.name ∧
      ∃ tree, (byteGrid.reduce .max [1] false "y").lower = .ok tree ∧ ∀ env,
        tree.execInto exactIntegers IntegerType.int8.wrap env byteMemory "y" [0] = 3 ∧
        tree.execInto exactIntegers IntegerType.int8.wrap env byteMemory "y" [1] ≠ -2 := by
  have hkind : ReductionKind.max.isLogical = false := rfl
  have helement : byteGrid.element = IntegerType.int8.element := rfl
  have hbounded : byteGrid.shape.Bounded := by decide
  have hname : "y" ≠ byteGrid.name := by decide
  obtain ⟨_, tree, htree, hrun⟩ :=
    lower_reduce_truncates .int8 hkind helement [1] false hbounded hname
  refine ⟨hkind, helement, hbounded, hname, tree, htree, fun env => ?_⟩
  have hholds : ∀ i ∈ byteGrid.shape.indices, IntegerType.int8.Holds (byteMemory "x" i) := by
    decide
  have hfirst := hrun env byteMemory hholds [0] (by decide) [-5, 3] (by decide) (by decide)
  have hsecond := hrun env byteMemory hholds [1] (by decide) [-7, -2] (by decide) (by decide)
  constructor
  · have hright := hfirst.2 (by decide)
    exact (Option.some.inj hright).symm
  · intro heq
    rw [heq] at hsecond
    exact absurd (hsecond.1 (by decide)) (by decide)

/-- The maximum of -7 and -2 comes out as zero, and the start value is no byte. -/
theorem lower_reduce_truncates_ne :
    ∃ tree, (byteGrid.reduce .max [1] false "y").lower = .ok tree ∧
      (∀ i ∈ byteGrid.shape.indices, IntegerType.int8.Holds (byteMemory "x" i)) ∧
      (byteGrid.shape.indices.filter (Agrees (containsAxis [1]) false · [1])).map
        (byteMemory "x") = [-7, -2] ∧
      [-7, -2].max? = some (-2 : Int) ∧
      (∀ env, tree.execInto exactIntegers IntegerType.int8.wrap env byteMemory "y" [1] = 0) ∧
      ¬ IntegerType.int8.Holds (ReductionKind.max.start exactIntegers byteGrid.element) := by
  refine ⟨_, rfl, by decide, by decide, by decide, fun env => ?_, by decide⟩
  rw [execInto_lowered rfl (by decide) (by decide) env byteMemory (by decide)]
  decide

end Reductions
