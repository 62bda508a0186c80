import Reductions.Proofs.ResolvedAxes

/-!
# What a compute function gives

Arguments are either a tensor and a name that the operator accepts, or faulty in
one of six ways, and the compute function of an operator tells them apart. For
accepted arguments it records the reduction along the axes that were resolved
when the strategy was built, whatever tensor that was for.
-/

namespace Reductions

theorem ElementType.isBool_eq_false_iff {element : ElementType} :
    element.isBool = false ↔ element ≠ .bool := by
  cases element <;> decide

/-! ## Arguments -/

/-- An argument that gives a tensor, directly or by its handle. -/
inductive Argument.Gives : Argument → Tensor → Prop
  | tensor (x : Tensor) : Gives (.tensor x) x
  | handle (x : Tensor) : Gives (.expr (.handle x)) x

namespace Argument

theorem asTensor?_eq_some_iff {a : Argument} {x : Tensor} :
    a.asTensor? = some x ↔ a.Gives x := by
  constructor
  · intro h
    cases a with
    | tensor t =>
        obtain rfl := Option.some.inj h
        exact .tensor t
    | expr e =>
        cases e with
        | handle t =>
            obtain rfl := Option.some.inj h
            exact .handle t
        | _ => cases h
    | _ => cases h
  · rintro (_ | _) <;> rfl

theorem asTensor?_eq_none_iff {a : Argument} : a.asTensor? = none ↔ ∀ x, ¬ a.Gives x := by
  rw [Option.eq_none_iff_forall_ne_some]
  exact forall_congr' fun x => not_congr asTensor?_eq_some_iff

theorem asString?_eq_none_iff {a : Argument} : a.asString? = none ↔ ∀ s, a ≠ .string s := by
  cases a <;> simp [asString?]

theorem asPack?_eq_none_iff {a : Argument} :
    a.asPack? = none ↔ ∀ entries, a ≠ .pack entries := by
  cases a <;> simp [asPack?]

end Argument

namespace Compute

section Arguments

variable (element : Option ElementType)

/-- A pack of a tensor and a name, where the tensor is boolean if the operator asks for that.
Further arguments do not count. -/
inductive Accepts : Pack → Tensor → String → Prop
  | intro {a : Argument} {x : Tensor} (name : String) (rest : Pack) :
      a.Gives x → (element = some .bool → x.element = .bool) →
      Accepts (.pack [a, .string name] :: rest) x name

/-- What is wrong with arguments. The name is looked at before the tensor. -/
inductive Faulty : Pack → StrategyFault → Prop
  | emptyArguments : Faulty [] (.emptyArguments .compute)
  | notAPack {a : Argument} (rest : Pack) :
      (∀ entries, a ≠ .pack entries) → Faulty (a :: rest) (.notAPack .compute)
  | arityMismatch {entries : Pack} (rest : Pack) :
      entries.length ≠ 2 →
      Faulty (.pack entries :: rest) (.arityMismatch .compute 2 2 entries.length)
  | notAString (a : Argument) {b : Argument} (rest : Pack) :
      (∀ name, b ≠ .string name) → Faulty (.pack [a, b] :: rest) (.notAString .compute 1)
  | notATensor {a : Argument} (name : String) (rest : Pack) :
      (∀ x, ¬ a.Gives x) →
      Faulty (.pack [a, .string name] :: rest) (.notATensor .compute 0)
  | typeMismatch {a : Argument} {x : Tensor} (name : String) (rest : Pack) :
      a.Gives x → element = some .bool → x.element ≠ .bool →
      Faulty (.pack [a, .string name] :: rest) (.typeMismatch x.name .bool x.element)

theorem accepts_or_faulty (args : Pack) :
    (∃ x name, Accepts element args x name) ∨ ∃ fault, Faulty element args fault := by
  -- Every check that fails is a fault, and what passes all of them is accepted.
  rcases args with _ | ⟨first, rest⟩
  · exact .inr ⟨_, .emptyArguments⟩
  by_cases hpack : ∃ entries, first = .pack entries
  swap
  · exact .inr ⟨_, .notAPack rest (not_exists.1 hpack)⟩
  obtain ⟨entries, rfl⟩ := hpack
  by_cases hlength : entries.length = 2
  swap
  · exact .inr ⟨_, .arityMismatch rest hlength⟩
  obtain ⟨a, b, rfl⟩ := List.length_eq_two.1 hlength
  by_cases hname : ∃ name, b = .string name
  swap
  · exact .inr ⟨_, .notAString a rest (not_exists.1 hname)⟩
  obtain ⟨name, rfl⟩ := hname
  by_cases htensor : ∃ x, a.Gives x
  swap
  · exact .inr ⟨_, .notATensor name rest (not_exists.1 htensor)⟩
  obtain ⟨x, hx⟩ := htensor
  by_cases helement : element = some .bool → x.element = .bool
  · exact .inl ⟨x, name, .intro name rest hx helement⟩
  · obtain ⟨hbool, hother⟩ := Classical.not_imp.1 helement
    exact .inr ⟨_, .typeMismatch name rest hx hbool hother⟩

end Arguments

/-! ## Results -/

variable {op : ReductionOperator} {axes : List UInt64} {keepdim : Bool} {reduce : ReduceFunction}
  {args : Pack}

/-- The operators whose names are listed as boolean are those that the table restricts. -/
theorem boolOperators_contains_iff (h : op ∈ ReductionOperator.table) :
    boolOperators.contains op.name = true ↔ op.element = some .bool := by
  rcases ReductionOperator.mem_table_iff.1 h with rfl | rfl | rfl | rfl | rfl | rfl <;> decide

theorem checkElement_eq (h : op ∈ ReductionOperator.table) (x : Tensor) :
    checkElement op.name x =
      if op.element = some .bool ∧ x.element ≠ .bool then
        .error (.typeMismatch x.name .bool x.element)
      else .ok () := by
  have hcondition : (boolOperators.contains op.name && !x.element.isBool) = true ↔
      op.element = some .bool ∧ x.element ≠ .bool := by
    rw [Bool.and_eq_true, boolOperators_contains_iff h, Bool.not_eq_true',
      ElementType.isBool_eq_false_iff]
  rw [checkElement]
  simp only [hcondition]

theorem run_of_accepts (h : op ∈ ReductionOperator.table) {x : Tensor} {name : String}
    (haccepts : Accepts op.element args x name) :
    run op.name axes keepdim reduce args = .ok [.tensor (reduce x axes keepdim name)] := by
  obtain ⟨_, _, hgives, helement⟩ := haccepts
  have htensor := Argument.asTensor?_eq_some_iff.2 hgives
  have hcheck : checkElement op.name x = .ok () := by
    rw [checkElement_eq h, if_neg fun ⟨hbool, hother⟩ => hother (helement hbool)]
  simp [run, operands, Argument.asPack?, Argument.asString?, htensor, hcheck]

theorem run_of_faulty (h : op ∈ ReductionOperator.table) {fault : StrategyFault}
    (hfaulty : Faulty op.element args fault) :
    run op.name axes keepdim reduce args = .error fault := by
  cases hfaulty with
  | emptyArguments => rfl
  | notAPack rest hpack =>
      have hnone := Argument.asPack?_eq_none_iff.2 hpack
      simp [run, operands, hnone]
  | @arityMismatch entries rest hlength =>
      rcases entries with _ | ⟨a, _ | ⟨b, _ | ⟨c, others⟩⟩⟩
      · rfl
      · rfl
      · exact absurd rfl hlength
      · rfl
  | notAString a rest hname =>
      have hnone := Argument.asString?_eq_none_iff.2 hname
      simp [run, operands, Argument.asPack?, hnone]
  | notATensor name rest htensor =>
      have hnone := Argument.asTensor?_eq_none_iff.2 htensor
      simp [run, operands, Argument.asPack?, Argument.asString?, hnone]
  | @typeMismatch a x name rest hgives hbool hother =>
      have htensor := Argument.asTensor?_eq_some_iff.2 hgives
      have hcheck := checkElement_eq h x
      rw [if_pos ⟨hbool, hother⟩] at hcheck
      simp [run, operands, Argument.asPack?, Argument.asString?, htensor, hcheck]

theorem run_eq_ok_iff (h : op ∈ ReductionOperator.table) {result : Pack} :
    run op.name axes keepdim reduce args = .ok result ↔
      ∃ x name, Accepts op.element args x name ∧
        result = [.tensor (reduce x axes keepdim name)] := by
  constructor
  · intro hrun
    rcases accepts_or_faulty op.element args with ⟨x, name, haccepts⟩ | ⟨fault, hfaulty⟩
    · rw [run_of_accepts h haccepts] at hrun
      exact ⟨x, name, haccepts, (Except.ok.inj hrun).symm⟩
    · rw [run_of_faulty h hfaulty] at hrun
      cases hrun
  · rintro ⟨x, name, haccepts, rfl⟩
    exact run_of_accepts h haccepts

theorem run_eq_error_iff (h : op ∈ ReductionOperator.table) {fault : StrategyFault} :
    run op.name axes keepdim reduce args = .error fault ↔ Faulty op.element args fault := by
  constructor
  · intro hrun
    rcases accepts_or_faulty op.element args with ⟨x, name, haccepts⟩ | ⟨fault', hfaulty⟩
    · rw [run_of_accepts h haccepts] at hrun
      cases hrun
    · have hfault := Except.error.inj ((run_of_faulty h hfaulty).symm.trans hrun)
      exact hfault ▸ hfaulty
  · exact run_of_faulty h

end Compute

/-! ## From attributes to results -/

namespace ReductionOperator

variable {op : ReductionOperator} {regime : ShapeRegime} {options : StrategyOptions}
  {call : OperatorCall} {s : Strategy}

theorem best?_of_build (h : op.build regime options call = .ok s) :
    ∃ input rest resolved, call.inputs = input :: rest ∧
      ReduceAxes.resolve call.attrs input.rank (regime.axisBound options) = .ok resolved ∧
      s.best? = some (op.implementation regime options call.target.arch resolved) := by
  obtain ⟨input, rest, resolved, hinputs, hresolve, rfl⟩ := build_eq_ok_iff.1 h
  exact ⟨input, rest, resolved, hinputs, hresolve, rfl⟩

theorem buildCompute_eq_error_iff (h : op ∈ table) (axes : List UInt64) (keepdim : Bool)
    (arch : Arch) {args : Pack} {e : StrategyError} :
    buildCompute op.name axes keepdim arch op.reduce args = .error e ↔
      ∃ cause, Compute.Faulty op.element args cause ∧ e = .fault op.name cause := by
  have hfaulty (cause : StrategyFault) : Compute.Faulty op.element args cause ↔
      Compute.run op.name axes keepdim op.reduce args = .error cause :=
    (Compute.run_eq_error_iff h).symm
  simp only [hfaulty, buildCompute]
  cases Compute.run op.name axes keepdim op.reduce args <;> simp [eq_comm]

theorem buildCompute_eq_ok_iff (h : op ∈ table) (axes : List UInt64) (keepdim : Bool)
    (arch : Arch) {args result : Pack} :
    buildCompute op.name axes keepdim arch op.reduce args = .ok result ↔
      ∃ x name, Compute.Accepts op.element args x name ∧
        result = [.tensor (x.reduce op.kind axes keepdim name)] := by
  rw [reduce_of_mem_table h, ← Compute.run_eq_ok_iff h, buildCompute]
  cases Compute.run op.name axes keepdim _ args <;> simp

/-- The compute function of a strategy's best implementation fails exactly for faulty arguments,
with the operator and what is wrong, and gives one tensor for all others. The tensor records the
reduction of the argument along the axes that the attributes select in the first input of the call,
whose rank need not be the one of the argument. -/
theorem best_compute (hop : op ∈ table) (hbuild : op.build regime options call = .ok s) :
    ∃ input rest resolved best, call.inputs = input :: rest ∧
      ReduceAxes.resolve call.attrs input.rank (regime.axisBound options) = .ok resolved ∧
      s.best? = some best ∧
      (∀ args e, best.compute args = .error e ↔
        ∃ cause, Compute.Faulty op.element args cause ∧ e = .fault op.name cause) ∧
      ∀ args result, best.compute args = .ok result ↔
        ∃ x name y, Compute.Accepts op.element args x name ∧ result = [.tensor y] ∧
          y = .reduction ⟨name, ⟨orUnit (.fixed 1) (resolved.remaining x.shape.dims)⟩, x.element⟩
            op.kind x resolved.axes resolved.keepdim ∧
          y.rank =
            if resolved.keepdim then max 1 x.rank
            else max 1 (x.rank - resolved.axes.countP (fun axis => axis.toNat < x.rank)) := by
  obtain ⟨input, rest, resolved, hinputs, hresolve, hbest⟩ := best?_of_build hbuild
  refine ⟨input, rest, resolved, _, hinputs, hresolve, hbest,
    fun args e => buildCompute_eq_error_iff hop _ _ call.target.arch,
    fun args result => ?_⟩
  have hrecord (x : Tensor) (name : String) :
      x.reduce op.kind resolved.axes resolved.keepdim name =
        .reduction ⟨name, ⟨orUnit (.fixed 1) (resolved.remaining x.shape.dims)⟩, x.element⟩
          op.kind x resolved.axes resolved.keepdim := by
    rw [← ReduceAxes.reduced_dims_eq, Tensor.reduce]
  refine (buildCompute_eq_ok_iff hop _ _ call.target.arch).trans ?_
  constructor
  · rintro ⟨x, name, haccepts, hresult⟩
    exact ⟨x, name, _, haccepts, hresult, hrecord x name, ReduceAxes.rank_reduced hresolve x.shape⟩
  · rintro ⟨x, name, y, haccepts, hresult, hy, _⟩
    rw [← hrecord] at hy
    exact ⟨x, name, haccepts, hy ▸ hresult⟩

def cubeCall : OperatorCall where
  attrs := AttrStore.ofList [(axisAttr, .int64s [-1, 0])]
  inputs := [.input ⟨"mask", ⟨[.fixed 4, .fixed 8, .fixed 2]⟩, .bool⟩]
  resultElements := []
  resultShapes := []
  target := .host

def matrix (element : ElementType) : Tensor :=
  .input ⟨"m", ⟨[.symbol "n", .fixed 3]⟩, element⟩

def matrixArguments (element : ElementType) : Pack :=
  [.pack [.expr (.handle (matrix element)), .string "out"]]

/-- The cube's axes on a matrix: one of them is out of its range, so one dimension is left. A matrix
of numbers is refused. -/
theorem best_compute_matrix :
    reduceAll ∈ table ∧
      ∃ s best, reduceAll.build .symbolic {} cubeCall = .ok s ∧ s.best? = some best ∧
        best.compute (matrixArguments .bool) =
          .ok [.tensor (.reduction ⟨"out", ⟨[.fixed 3]⟩, .bool⟩ .all (matrix .bool) [0, 2]
            false)] ∧
        best.compute (matrixArguments .float32) =
          .error (.fault "reduce_all" (.typeMismatch "m" .bool .float32)) := by
  have hop : reduceAll ∈ table := by simp [mem_table_iff]
  have hlisted : (cubeCall.attrs.get? axisAttr).bind ReduceAxes.listed? = some [-1, 0] := rfl
  have hperm : ([-1, 0].map (ReduceAxes.fromFront 3)).Perm [0, 2] := .swap 0 2 []
  have hresolve : ReduceAxes.resolve cubeCall.attrs 3 .exclusive = .ok ⟨[0, 2], false⟩ :=
    ReduceAxes.resolve_of_perm hlisted (by decide) hperm (by decide) .exclusive
  have hbuild : ∃ s, reduceAll.build .symbolic {} cubeCall = .ok s :=
    ⟨_, build_eq_ok_iff.2 ⟨_, _, _, rfl, hresolve, rfl⟩⟩
  obtain ⟨s, hs⟩ := hbuild
  obtain ⟨input, rest, resolved, best, hinputs, hok, hbest, herror, hresult⟩ := best_compute hop hs
  obtain ⟨rfl, rfl⟩ := List.cons.inj hinputs
  obtain rfl := Except.ok.inj (hresolve.symm.trans hok)
  have haccepts : Compute.Accepts (some .bool) (matrixArguments .bool) (matrix .bool) "out" :=
    .intro "out" [] (.handle _) fun _ => rfl
  have hfaulty : Compute.Faulty (some .bool) (matrixArguments .float32)
      (.typeMismatch "m" .bool .float32) :=
    .typeMismatch "out" [] (.handle (matrix .float32)) rfl (by decide)
  exact ⟨hop, s, best, hs, hbest, (hresult _ _).2 ⟨_, _, _, haccepts, rfl, rfl, rfl⟩,
    (herror _ _).2 ⟨_, hfaulty, rfl⟩⟩

end ReductionOperator

end Reductions
