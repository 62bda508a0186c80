import Reductions.Proofs.Results
import Reductions.Proofs.Scheduling

/-!
# Failures name their operator

Building a strategy can fail, and so can the functions of what was built. Every
failure is a fault of the operator at hand and its text starts with that
operator's name. A failed merge would name none, but roots are merged only when
there are some, and then one root is left.
-/

namespace Reductions

/-- The error names the operator, in its data and at the start of its text. -/
structure StrategyError.Concerns (e : StrategyError) (op : String) : Prop where
  op?_eq : e.op? = some op
  startsWith : (op ++ ":").toList <+: e.message.toList
  not_program : ∀ cause, e ≠ .program cause

def Implementation.functions (i : Implementation) : List PackFunction :=
  i.compute :: i.schedule.toList

theorem StrategyError.fault_concerns (op : String) (cause : StrategyFault) :
    (fault op cause).Concerns op where
  op?_eq := rfl
  startsWith := by
    have hmessage : (fault op cause).message.toList =
        (op ++ ":").toList ++ (" " ++ cause.message).toList := by
      simp [message]
    rw [hmessage]
    exact List.prefix_append _ _
  not_program := nofun

variable {op : String} {args : Pack} {e : StrategyError}

theorem exists_fault_of_buildCompute {axes : List UInt64} {keepdim : Bool} (arch : Arch)
    {reduce : ReduceFunction} (h : buildCompute op axes keepdim arch reduce args = .error e) :
    ∃ cause, e = .fault op cause := by
  unfold buildCompute at h
  cases hrun : Compute.run op axes keepdim reduce args with
  | ok result =>
      rw [hrun] at h
      cases h
  | error cause =>
      rw [hrun] at h
      exact ⟨cause, (Except.error.inj h).symm⟩

/-- No schedule fails to merge: the outcomes with an error are faults. -/
theorem exists_fault_of_buildSchedule {arch : Arch} {options : StrategyOptions}
    (h : buildSchedule op arch options args = .error e) : ∃ cause, e = .fault op cause := by
  cases Schedule.buildSchedule_eq_iff.1 h with
  | emptyArguments => exact ⟨_, rfl⟩
  | arityMismatch => exact ⟨_, rfl⟩
  | noStatements => exact ⟨_, rfl⟩
  | unsupportedArchitecture => exact ⟨_, rfl⟩

namespace ReductionOperator

variable {op : ReductionOperator} {regime : ShapeRegime} {options : StrategyOptions}

theorem exists_fault_of_build {call : OperatorCall}
    (h : op.build regime options call = .error e) : ∃ cause, e = .fault op.name cause := by
  rcases build_eq_error_iff.1 h with ⟨_, he⟩ | ⟨_, _, fault, _, _, he⟩
  · exact ⟨.missingInput, he⟩
  · exact ⟨fault, he⟩

theorem exists_fault_of_mem_functions {arch : Arch} {axes : ReduceAxes} {f : PackFunction}
    (hf : f ∈ (op.implementation regime options arch axes).functions)
    (h : f args = .error e) : ∃ cause, e = .fault op.name cause := by
  rcases List.mem_cons.1 hf with rfl | hschedule
  · exact exists_fault_of_buildCompute arch h
  · cases regime with
    | static =>
        obtain rfl := List.mem_singleton.1 hschedule
        exact exists_fault_of_buildSchedule h
    | symbolic => cases hschedule

/-- Whatever fails while a reduction operator is handled names that operator: building a strategy in
either regime, and the compute and schedule functions of what was built, on any arguments. A failed
merge is never reported. -/
theorem failures_concern (op : ReductionOperator) (regime : ShapeRegime)
    (options : StrategyOptions) (call : OperatorCall) :
    (∀ e, op.build regime options call = .error e → e.Concerns op.name) ∧
    ∀ s, op.build regime options call = .ok s → ∃ i, s.implementations = [i] ∧
      ∀ f ∈ i.functions, ∀ args e, f args = .error e → e.Concerns op.name := by
  constructor
  · intro e he
    obtain ⟨cause, rfl⟩ := exists_fault_of_build he
    exact StrategyError.fault_concerns op.name cause
  · intro s hs
    obtain ⟨_, _, axes, _, _, rfl⟩ := build_eq_ok_iff.1 hs
    refine ⟨_, rfl, fun f hf args e he => ?_⟩
    obtain ⟨cause, rfl⟩ := exists_fault_of_mem_functions hf he
    exact StrategyError.fault_concerns op.name cause

/-- A repeated axis, and a schedule that is given tensors alone. -/
theorem failures_concern_matrix :
    (∃ e, reduceSum.build .static {} (matrixCall [1, -1]) = .error e ∧
      e.message = "reduce_sum: the reduce axes should be unique, axis 1 repeats" ∧
      e.Concerns "reduce_sum") ∧
    ∃ s i f e, reduceSum.build .static {} (matrixCall [-1]) = .ok s ∧
      s.implementations = [i] ∧ f ∈ i.functions ∧
      f [.tensor (matrix .bool), .tensor (matrix .bool)] = .error e ∧
      e.message = "reduce_sum: schedule received no statement trees" ∧
      e.Concerns "reduce_sum" := by
  constructor
  · obtain ⟨hbuild, _⟩ := failures_concern reduceSum .static {} (matrixCall [1, -1])
    have hlisted : ((matrixCall [1, -1]).attrs.get? axisAttr).bind ReduceAxes.listed? =
        some [1, -1] := rfl
    have hperm : ([1, -1].map (ReduceAxes.fromFront 2)).Perm [1, 1] := .refl [1, 1]
    have hresolve : ReduceAxes.resolve (matrixCall [1, -1]).attrs 2 .inclusive =
        .error (.duplicateAxis 1) :=
      ReduceAxes.resolve_of_perm hlisted (by decide) hperm (by decide) .inclusive
    have herror : reduceSum.build .static {} (matrixCall [1, -1]) =
        .error (.fault "reduce_sum" (.duplicateAxis 1)) :=
      build_eq_error_iff.2 (.inr ⟨_, _, _, rfl, hresolve, rfl⟩)
    exact ⟨_, herror, by decide, hbuild _ herror⟩
  · obtain ⟨_, hfunctions⟩ := failures_concern reduceSum .static {} (matrixCall [-1])
    have hok : reduceSum.build .static {} (matrixCall [-1]) =
        .ok ⟨[reduceSum.implementation .static {} .x86 ⟨[1], false⟩]⟩ :=
      build_eq_ok_iff.2 ⟨_, _, _, rfl, resolve_matrixCall .inclusive, rfl⟩
    obtain ⟨i, hi, hconcern⟩ := hfunctions _ hok
    obtain rfl := List.singleton_inj.1 hi
    have hmem : buildSchedule "reduce_sum" .x86 {} ∈
        (reduceSum.implementation .static {} .x86 ⟨[1], false⟩).functions :=
      List.mem_cons_of_mem _ (List.mem_singleton_self _)
    have herror : buildSchedule "reduce_sum" .x86 {}
        [.tensor (matrix .bool), .tensor (matrix .bool)] =
        .error (.fault "reduce_sum" .noStatements) := rfl
    exact ⟨_, _, _, _, hok, rfl, hmem, herror, by decide, hconcern _ hmem _ _ herror⟩

end ReductionOperator

end Reductions
