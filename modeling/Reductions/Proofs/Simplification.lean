import Reductions.Expr.Simplify
import Reductions.Proofs.Folding

/-!
# Simplification and execution

Flattening blocks never changes what a tree does. Removing a loop that runs
once puts the lower bound into the body unevaluated, so it is right only where
the lower bound keeps its value up to the places of the loop variable: this is
what `Hygienic` says. Trees that are not hygienic exist in both ways in which a
lower bound can lose its value, and simplification changes what they do.
-/

namespace Reductions

/-! ## Flattening -/

theorem Expr.exec_flatten {V : Type} (I : Interpretation V) (e : Expr) (env : Env)
    (mem : Memory V) : e.flatten.exec I env mem = e.exec I env mem := by
  induction e using Expr.induct generalizing env mem with
  | int | float | bool | var | handle | binary | load | store => rfl
  | loop v min extent marks body _ _ ih =>
      rw [flatten, exec, exec]
      apply List.foldl_ext
      intro m w _
      exact ih _ m
  | block ss ih =>
      rw [flatten, exec, exec, flattenAll_eq, execAll_flatMap_statements, execAll_eq, execAll_eq,
        List.foldl_map]
      apply List.foldl_ext
      intro m s hs
      exact ih s hs env m

/-! ## Loops that run once -/

mutual

/-- The lower bound of every loop that runs once keeps its value in what is left of the body. -/
def Expr.Hygienic : Expr → Prop
  | .loop v min extent _ body =>
    body.Hygienic ∧ (extent.asInt? = some 1 → Expr.Keeps v min body.removeUnitLoops)
  | .block ss => HygienicAll ss
  | _ => True

def Expr.HygienicAll : List Expr → Prop
  | [] => True
  | s :: ss => s.Hygienic ∧ HygienicAll ss

end

mutual

def Expr.decidableHygienic : (e : Expr) → Decidable e.Hygienic
  | .loop v min extent _ body =>
    have := body.decidableHygienic
    inferInstanceAs (Decidable (body.Hygienic ∧
      (extent.asInt? = some 1 → Expr.Keeps v min body.removeUnitLoops)))
  | .block ss => decidableHygienicAll ss
  | .int _ | .float _ | .bool _ | .var _ | .handle _ | .binary _ _ _ | .load _ _
  | .store _ _ _ => isTrue trivial

def Expr.decidableHygienicAll : (ss : List Expr) → Decidable (HygienicAll ss)
  | [] => isTrue trivial
  | s :: ss =>
    have := s.decidableHygienic
    have := decidableHygienicAll ss
    inferInstanceAs (Decidable (s.Hygienic ∧ HygienicAll ss))

end

instance (e : Expr) : Decidable e.Hygienic :=
  e.decidableHygienic

theorem Expr.hygienicAll_iff {ss : List Expr} :
    HygienicAll ss ↔ ∀ s ∈ ss, s.Hygienic := by
  induction ss with
  | nil => simp [HygienicAll]
  | cons s ss ih => simp [HygienicAll, ih]

namespace WellTyped

variable {Γ : String → ScalarType} {e : Expr}

theorem removeUnitLoops (h : WellTyped Γ e) : WellTyped Γ e.removeUnitLoops := by
  induction h with
  | value he =>
      cases he with
      | _ => exact .value (by constructor <;> assumption)
  | handle tensor => exact .handle tensor
  | store hindices hvalue => exact .store hindices hvalue
  | @loop v min extent marks body hmin hextent _ ih =>
      rw [Expr.removeUnitLoops]
      by_cases hunit : extent.asInt? = some 1
      · rw [if_pos hunit]
        exact (ih.substitute v hmin).fold
      · rw [if_neg hunit]
        exact .loop hmin hextent ih
  | block _ ih =>
      rw [Expr.removeUnitLoops, Expr.removeUnitLoopsAll_eq]
      apply WellTyped.block
      simpa using ih

theorem exec_removeUnitLoops (h : WellTyped Γ e) (hhygienic : e.Hygienic) (env : Env)
    {mem : Memory Scalar} (hmem : mem.Typed Γ) :
    e.removeUnitLoops.exec Scalar.interpretation env mem =
      e.exec Scalar.interpretation env mem := by
  induction h generalizing env mem with
  | value he => cases he <;> rfl
  | handle tensor => rfl
  | store _ _ => rfl
  | @loop v min extent marks body hmin hextent hbody ih =>
      rw [Expr.Hygienic] at hhygienic
      obtain ⟨hinner, hkeeps⟩ := hhygienic
      rw [Expr.removeUnitLoops]
      by_cases hunit : extent.asInt? = some 1
      · obtain ⟨w, hw⟩ := hmin.eval_ofWord env hmem
        have hrest : WellTyped Γ body.removeUnitLoops := hbody.removeUnitLoops
        rw [if_pos hunit]
        calc (Expr.substitute v min body.removeUnitLoops).fold.exec Scalar.interpretation env mem
            = (Expr.substitute v min body.removeUnitLoops).exec Scalar.interpretation env mem :=
              (hrest.substitute v hmin).exec_fold env hmem
          _ = body.removeUnitLoops.exec Scalar.interpretation (Function.update env v w) mem :=
              Expr.exec_substitute hmin.not_isStatement (hkeeps hunit) hw
          _ = body.exec Scalar.interpretation (Function.update env v w) mem := ih hinner _ hmem
          _ = (Expr.loop v min extent marks body).exec Scalar.interpretation env mem := by
              rw [Expr.exec_loop_one v min hunit, hw]
              rfl
      · rw [if_neg hunit, Expr.exec, Expr.exec]
        apply Expr.foldl_congr_of_invariant (fun m => m.Typed Γ) _ hmem
        intro w _ m hm
        exact ⟨ih hinner _ hm, hbody.exec_typed _ hm⟩
  | @block ss hss ih =>
      rw [Expr.Hygienic, Expr.hygienicAll_iff] at hhygienic
      rw [Expr.removeUnitLoops, Expr.removeUnitLoopsAll_eq, Expr.exec, Expr.exec,
        Expr.execAll_eq, Expr.execAll_eq, List.foldl_map]
      apply Expr.foldl_congr_of_invariant (fun m => m.Typed Γ) _ hmem
      intro s hs m hm
      exact ⟨ih s hs (hhygienic s hs) env hm, (hss s hs).exec_typed env hm⟩

end WellTyped

/-- Simplifying a well typed, hygienic tree does not change what it does. -/
theorem exec_simplify {Γ : String → ScalarType} {e : Expr} (htyped : WellTyped Γ e)
    (hhygienic : e.Hygienic) (env : Env) {mem : Memory Scalar} (hmem : mem.Typed Γ) :
    e.simplify.exec Scalar.interpretation env mem = e.exec Scalar.interpretation env mem := by
  rw [Expr.simplify, Expr.exec_flatten, htyped.exec_removeUnitLoops hhygienic env hmem]

def shifted : Expr :=
  .loop "i" (.load "a" [.var "n"]) (.int 1) .empty (.block [
    .loop "k" (.int 0) (.int 2) .empty
      (.store "u" [.binary .add (.var "i") (.var "k")] (.binary .mul (.var "i") (.int 1))),
    .block [.store "u" [.int 9] (.load "a" [.var "i"])]])

theorem exec_simplify_shifted :
    WellTyped (fun _ => .int) shifted ∧ shifted.Hygienic ∧
      Memory.Typed (fun _ => .int) (fun _ _ => .int 3) ∧
      shifted.simplify.exec Scalar.interpretation (fun _ => 4) (fun _ _ => .int 3) =
        shifted.exec Scalar.interpretation (fun _ => 4) (fun _ _ => .int 3) := by
  have htyped : WellTyped (fun _ => .int) shifted := by
    have hvar (v : String) : HasType (fun _ => .int) (.var v) .int := .var v
    have hload (t v : String) : HasType (fun _ => .int) (.load t [.var v]) .int :=
      .load (by simpa using hvar v)
    have hsum : HasType (fun _ => .int) (.binary .add (.var "i") (.var "k")) .int :=
      .binary (hvar "i") (hvar "k")
    have hproduct : HasType (fun _ => .int) (.binary .mul (.var "i") (.int 1)) .int :=
      .binary (hvar "i") (.int 1)
    have hstore : WellTyped (fun _ => .int) (.store "u" [.int 9] (.load "a" [.var "i"])) :=
      .store (by simpa using HasType.int 9) (hload "a" "i")
    refine .loop (hload "a" "n") (.int 1) (.block ?_)
    simp only [List.mem_cons, List.not_mem_nil, or_false, forall_eq_or_imp, forall_eq]
    constructor
    · exact .loop (.int 0) (.int 2) (.store (by simpa using hsum) hproduct)
    · exact .block (by simpa using hstore)
  have hhygienic : shifted.Hygienic := by decide
  have hmem : Memory.Typed (fun _ => .int) (fun _ _ => .int 3) := fun _ _ => rfl
  exact ⟨htyped, hhygienic, hmem, exec_simplify htyped hhygienic _ hmem⟩

/-! ## Lower bounds that lose their value -/

/-- The inner loop binds the variable that the lower bound of the outer one mentions. -/
def captured : Expr :=
  .loop "i" (.var "k") (.int 1) .empty
    (.loop "k" (.int 0) (.int 2) .empty (.store "t" [.var "i"] (.int 1)))

/-- The body stores to the element that the lower bound loads. -/
def overwritten : Expr :=
  .loop "i" (.load "t" [.int 0]) (.int 1) .empty
    (.block [.store "t" [.int 0] (.int 7), .store "u" [.var "i"] (.int 1)])

/-- Simplification is wrong on both trees, from a memory of zeros and with five for `k`. -/
theorem exec_simplify_ne :
    (WellTyped (fun _ => .int) captured ∧
      captured.simplify.exec Scalar.interpretation (fun _ => 5) (fun _ _ => .int 0) ≠
        captured.exec Scalar.interpretation (fun _ => 5) (fun _ _ => .int 0)) ∧
    (WellTyped (fun _ => .int) overwritten ∧
      overwritten.simplify.exec Scalar.interpretation (fun _ => 5) (fun _ _ => .int 0) ≠
        overwritten.exec Scalar.interpretation (fun _ => 5) (fun _ _ => .int 0)) := by
  have hint (n : Int64) : ∀ i ∈ [Expr.int n], HasType (fun _ => .int) i .int := by
    simpa using HasType.int n
  have hvar (v : String) : ∀ i ∈ [Expr.var v], HasType (fun _ => .int) i .int := by
    simpa using HasType.var v
  refine ⟨⟨?_, ?_⟩, ?_, ?_⟩
  · exact .loop (.var "k") (.int 1) (.loop (.int 0) (.int 2) (.store (hvar "i") (.int 1)))
  · -- The element of `t` at five is stored to before, but not after.
    intro h
    have hfive := congrFun (congrFun h "t") [5]
    revert hfive
    decide
  · refine .loop (.load (hint 0)) (.int 1) (.block ?_)
    simp only [List.mem_cons, List.not_mem_nil, or_false, forall_eq_or_imp, forall_eq]
    exact ⟨.store (hint 0) (.int 7), .store (hvar "i") (.int 1)⟩
  · -- The element of `u` at zero is stored to before; after, it is the one at seven.
    intro h
    have hzero := congrFun (congrFun h "u") [0]
    revert hzero
    decide

end Reductions
