import Reductions.Strategy.Reduce
import Reductions.Proofs.Emitters
import Reductions.Proofs.Settled
import Reductions.Proofs.Simplification

/-!
# Lowering and scheduling

The schedule function takes the lowered roots of what an emitter emits, together
with the tensors themselves, and gives one tree. That tree does what the roots
do one after another, over every domain of elements.
-/

namespace Reductions

namespace Settled

/-! ## Lowered trees -/

theorem extent (dim : Dim) : Settled dim.extent := by
  cases dim with
  | fixed size => exact .int _
  | symbol name => exact .var name

theorem nestFrom (stem : String) (marks : Nat → LoopMarks) {body : Expr} (h : Settled body)
    (k : Nat) (dims : List Dim) : Settled (Lowering.nestFrom stem marks body k dims) := by
  induction dims generalizing k with
  | nil => exact h
  | cons dim dims ih =>
      rw [Lowering.nestFrom]
      apply Settled.loop (extent dim)
      apply Settled.block
      simpa using ih (k + 1)

theorem loopVars (stem : String) (rank : Nat) : ∀ i ∈ Lowering.loopVars stem rank, Settled i := by
  intro i hi
  obtain ⟨k, _, rfl⟩ := List.mem_map.1 hi
  exact .var _

theorem resultIndices (axes : List UInt64) (keepdim : Bool) (rank : Nat) :
    ∀ i ∈ Lowering.resultIndices axes keepdim rank, Settled i := by
  intro i hi
  rcases Lowering.mem_resultIndices hi with rfl | hvar
  · exact .int 0
  · exact loopVars _ _ i hvar

theorem identity (kind : ReductionKind) (element : ElementType) :
    Settled (kind.identity element) :=
  ReductionKind.identity_induct .int .float .bool kind element

theorem lower {t : Tensor} {tree : Expr} (h : t.lower = .ok tree) :
    Settled tree ∧ tree.isBlock = true := by
  cases t with
  | input header => cases h
  | reduction header kind source axes keepdim =>
      obtain rfl := Except.ok.inj h
      have hinit : Settled (Lowering.initNest header kind) :=
        nestFrom _ _ (.store (loopVars _ _) (identity kind _)) _ _
      have hplace := resultIndices axes keepdim source.rank
      have hcombine : Settled (Lowering.combineNest header kind source axes keepdim) :=
        nestFrom _ _ (.store hplace (.combine hplace (loopVars _ _))) _ _
      refine ⟨.block ?_, rfl⟩
      simpa using ⟨hinit, hcombine⟩

end Settled

/-! ## Roots -/

theorem exists_roots {tensors : List Tensor} (h : ∀ t ∈ tensors, ∃ root, t.lower = .ok root) :
    ∃ roots, tensors.mapM Tensor.lower = .ok roots ∧ roots.length = tensors.length ∧
      ∀ root ∈ roots, Settled root ∧ root.isBlock = true := by
  induction tensors with
  | nil => exact ⟨[], rfl, rfl, fun root hroot => nomatch hroot⟩
  | cons t tensors ih =>
      obtain ⟨root, hroot⟩ := h t List.mem_cons_self
      obtain ⟨roots, hroots, hlength, hall⟩ := ih fun u hu => h u (List.mem_cons_of_mem _ hu)
      refine ⟨root :: roots, ?_, ?_, ?_⟩
      · rw [List.mapM_cons, hroot, hroots]
        rfl
      · rw [List.length_cons, List.length_cons, hlength]
      · intro other hother
        rcases List.mem_cons.1 hother with heq | hmem
        · rw [heq]
          exact Settled.lower hroot
        · exact hall other hmem

theorem Emitter.lower_emit (emitter : Emitter) (kind : ReductionKind) (x : Tensor)
    (axes : List UInt64) (keepdim : Bool) (name : String) :
    ∀ t ∈ emitter.emit kind x axes keepdim name, ∃ root, t.lower = .ok root := by
  intro t ht
  obtain ⟨source, axes', keepdim', name', rfl, _⟩ := emitter.exists_eq_reduce ht
  exact source.lower_reduce kind axes' keepdim' name'

theorem Emitter.length_emit (emitter : Emitter) (kind : ReductionKind) (x : Tensor)
    (axes : List UInt64) (keepdim : Bool) (name : String) :
    1 ≤ (emitter.emit kind x axes keepdim name).length ∧
      (emitter.emit kind x axes keepdim name).length ≤ 2 := by
  rcases emitter.emit_cases kind x axes keepdim name with hone | ⟨_, last, _, htwo⟩
  · rw [hone, List.length_singleton]
    omega
  · rw [htwo, List.length_cons, List.length_singleton]
    omega

theorem execAll_simplify {V : Type} (I : Interpretation V) {roots : List Expr}
    (h : ∀ root ∈ roots, Settled root) (env : Env) (mem : Memory V) :
    Expr.execAll I (roots.map Expr.simplify) env mem = Expr.execAll I roots env mem := by
  rw [Expr.execAll_eq, Expr.execAll_eq, List.foldl_map]
  apply List.foldl_ext
  intro m root hroot
  rw [Expr.simplify, Expr.exec_flatten, (h root hroot).exec_removeUnitLoops]

/-! ## Scheduling -/

/-- Merging trees gives one that does what they do in order. -/
theorem exec_mergeTrees {trees : List Expr} (h : trees ≠ []) :
    ∃ root, Schedule.mergeTrees trees = .ok root ∧
      ∀ {V : Type} (I : Interpretation V) (env : Env) (mem : Memory V),
        root.exec I env mem = Expr.execAll I trees env mem := by
  cases trees with
  | nil => exact absurd rfl h
  | cons first rest =>
      cases rest with
      | nil => exact ⟨first, rfl, fun I env mem => rfl⟩
      | cons second rest =>
          refine ⟨_, rfl, fun I env mem => ?_⟩
          rw [Expr.exec, Expr.execAll_flatMap_statements]

def Schedule.arguments (roots : List Expr) (tensors : List Tensor) : Pack :=
  roots.map Argument.expr ++ tensors.map Argument.tensor

theorem trees_arguments {roots : List Expr} (h : ∀ root ∈ roots, root.isBlock = true)
    (tensors : List Tensor) :
    Schedule.trees (Schedule.arguments roots tensors) = roots.map Expr.simplify := by
  have hroots : (roots.map Argument.expr).filterMap Argument.asStatement? = roots := by
    rw [List.filterMap_map]
    have hsome : ∀ root ∈ roots, (Argument.asStatement? ∘ Argument.expr) root = some root := by
      intro root hroot
      have hblock := h root hroot
      cases root with
      | block ss => rfl
      | _ => cases hblock
    rw [List.filterMap_congr hsome, List.filterMap_some]
  have htensors : (tensors.map Argument.tensor).filterMap Argument.asStatement? = [] := by
    rw [List.filterMap_map, List.filterMap_eq_nil_iff]
    exact fun t _ => rfl
  rw [Schedule.trees, Schedule.arguments, List.filterMap_append, hroots, htensors,
    List.append_nil]

theorem entries_arguments {roots : List Expr} (h : roots ≠ []) (tensors : List Tensor) :
    Schedule.entries (Schedule.arguments roots tensors) = Schedule.arguments roots tensors := by
  cases roots with
  | nil => exact absurd rfl h
  | cons root roots => rfl

/-- Where roots are accepted, the schedule is what they merge into when simplified. -/
theorem buildSchedule_eq (op : String) {arch : Arch} (harch : arch ≠ .unknown)
    {options : StrategyOptions} {args : Pack} {roots : List Expr} {tensors : List Tensor}
    (hentries : Schedule.entries args = Schedule.arguments roots tensors) (hargs : args ≠ [])
    (hroots : roots ≠ []) (hblocks : ∀ root ∈ roots, root.isBlock = true)
    (harity : Schedule.acceptsArity options (roots.length + tensors.length) = true) {tree : Expr}
    (htree : Schedule.mergeTrees (roots.map Expr.simplify) = .ok tree) :
    buildSchedule op arch options args = .ok [.expr tree] := by
  have htrees : Schedule.trees (Schedule.entries args) = roots.map Expr.simplify := by
    rw [hentries, trees_arguments hblocks]
  have hlength : (Schedule.entries args).length = roots.length + tensors.length := by
    rw [hentries, Schedule.arguments, List.length_append, List.length_map, List.length_map]
  simp [buildSchedule, htrees, hlength, hargs, harity, hroots, htree, harch]

/-- The schedule function turns the lowered roots of any emitter, followed by its tensors, into one
tree that does what the roots do in order. It makes no difference whether they are in a pack of
their own. -/
theorem schedule_emitted (op : ReductionOperator) (emitter : Emitter) (x : Tensor)
    (axes : List UInt64) (keepdim : Bool) (name : String) {arch : Arch} (harch : arch ≠ .unknown)
    {options : StrategyOptions} (hmin : options.minScheduleArgs = 2)
    (hmax : options.maxScheduleArgs = 8) :
    ∃ roots tree,
      (emitter.emit op.kind x axes keepdim name).mapM Tensor.lower = .ok roots ∧
      buildSchedule op.name arch options
        (Schedule.arguments roots (emitter.emit op.kind x axes keepdim name)) =
          .ok [.expr tree] ∧
      buildSchedule op.name arch options
        (Pack.wrap (Schedule.arguments roots (emitter.emit op.kind x axes keepdim name))) =
          .ok [.expr tree] ∧
      ∀ {V : Type} (I : Interpretation V) (env : Env) (mem : Memory V),
        tree.exec I env mem = Expr.execAll I roots env mem := by
  have hemitted := emitter.length_emit op.kind x axes keepdim name
  obtain ⟨roots, hroots, hlength, hsettled⟩ :=
    exists_roots (emitter.lower_emit op.kind x axes keepdim name)
  generalize emitter.emit op.kind x axes keepdim name = tensors at hemitted hroots hlength ⊢
  have hne : roots ≠ [] := by
    intro hnil
    rw [hnil, List.length_nil] at hlength
    omega
  have hsimplified : roots.map Expr.simplify ≠ [] := by
    rw [ne_eq, List.map_eq_nil_iff]
    exact hne
  have hblocks : ∀ root ∈ roots, root.isBlock = true := fun root hroot => (hsettled root hroot).2
  have harity : Schedule.acceptsArity options (roots.length + tensors.length) = true := by
    have htwo : (2 : UInt64).toNat = 2 := rfl
    have height : (8 : UInt64).toNat = 8 := rfl
    rw [Schedule.acceptsArity, hmin, hmax, htwo, height, Bool.and_eq_true, decide_eq_true_eq,
      decide_eq_true_eq]
    omega
  obtain ⟨tree, htree, hexec⟩ := exec_mergeTrees hsimplified
  have hentries := entries_arguments hne tensors
  have hargs : Schedule.arguments roots tensors ≠ [] := by
    rw [Schedule.arguments]
    simp [hne]
  refine ⟨roots, tree, hroots, ?_, ?_, ?_⟩
  · exact buildSchedule_eq op.name harch hentries hargs hne hblocks harity htree
  · exact buildSchedule_eq op.name harch rfl (List.cons_ne_nil _ _) hne hblocks harity htree
  · intro V I env mem
    rw [hexec, execAll_simplify I fun root hroot => (hsettled root hroot).1]

theorem schedule_emitted_grid :
    Arch.nvGpu ≠ .unknown ∧ ({} : StrategyOptions).minScheduleArgs = 2 ∧
      ({} : StrategyOptions).maxScheduleArgs = 8 ∧
      ∃ roots tree,
        (Emitter.twoStep.emit .max grid [0, 1] true "y").mapM Tensor.lower = .ok roots ∧
        buildSchedule "reduce_max" .nvGpu {}
          (Schedule.arguments roots (Emitter.twoStep.emit .max grid [0, 1] true "y")) =
            .ok [.expr tree] ∧
        buildSchedule "reduce_max" .nvGpu {} (Pack.wrap
          (Schedule.arguments roots (Emitter.twoStep.emit .max grid [0, 1] true "y"))) =
            .ok [.expr tree] ∧
        ∀ {V : Type} (I : Interpretation V) (env : Env) (mem : Memory V),
          tree.exec I env mem = Expr.execAll I roots env mem :=
  ⟨by decide, rfl, rfl,
    schedule_emitted .reduceMax .twoStep grid [0, 1] true "y" (by decide) rfl rfl⟩

end Reductions
