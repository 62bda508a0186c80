import Reductions.Proofs.FoldingRules
import Reductions.Proofs.Scalars

/-!
# Folding and execution

Folding a well typed tree does not change what the tree does. The argument goes
operation by operation: `Refolds` says that one expression can stand for
another, and each rule of folding has one lemma.
-/

namespace Reductions

variable {Γ : String → ScalarType}

/-! ## Words -/

theorem BinaryOp.onWords_of_evalInt? {op : BinaryOp} {a b n : Int64}
    (h : op.evalInt? a b = some n) : op.onWords a b = n := by
  cases op with
  | add =>
      have hn : n.toInt = a.toInt + b.toInt := Word.int64?_eq_some_iff.1 h
      rw [onWords, ← Int64.ofInt_toInt n, hn, Int64.ofInt_add, Int64.ofInt_toInt,
        Int64.ofInt_toInt]
  | sub =>
      have hn : n.toInt = a.toInt - b.toInt := Word.int64?_eq_some_iff.1 h
      rw [onWords, ← Int64.ofInt_toInt n, hn, Int64.ofInt_sub, Int64.ofInt_toInt,
        Int64.ofInt_toInt]
  | mul =>
      have hn : n.toInt = a.toInt * b.toInt := Word.int64?_eq_some_iff.1 h
      rw [onWords, ← Int64.ofInt_toInt n, hn, Int64.ofInt_mul, Int64.ofInt_toInt,
        Int64.ofInt_toInt]
  | max => exact Option.some.inj h
  | min => exact Option.some.inj h
  | and | or => simp [evalInt?] at h

/-- The second expression has the type of the first and the same value. -/
def Refolds (Γ : String → ScalarType) (τ : ScalarType) (e e' : Expr) : Prop :=
  HasType Γ e' τ ∧ ∀ (env : Env) (mem : Memory Scalar), mem.Typed Γ →
    e'.eval Scalar.interpretation env mem = e.eval Scalar.interpretation env mem

namespace Refolds

variable {lhs rhs : Expr} {op : BinaryOp} {τ : ScalarType}

theorem refl {e : Expr} (h : HasType Γ e τ) : Refolds Γ τ e e :=
  ⟨h, fun _ _ _ => rfl⟩

theorem keep_lhs {n : Int64} (hop : op.type = .int) (hidle : ∀ w, op.onWords w n = w)
    (hl : HasType Γ lhs .int) : Refolds Γ .int (.binary op lhs (.int n)) lhs := by
  refine ⟨hl, fun env mem hmem => ?_⟩
  obtain ⟨w, hw⟩ := hl.eval_ofWord env hmem
  rw [Expr.eval, Expr.eval, hw, Scalar.onReadings_ofWord hop, hidle]

theorem keep_rhs {n : Int64} (hop : op.type = .int) (hidle : ∀ w, op.onWords n w = w)
    (hr : HasType Γ rhs .int) : Refolds Γ .int (.binary op (.int n) rhs) rhs := by
  refine ⟨hr, fun env mem hmem => ?_⟩
  obtain ⟨w, hw⟩ := hr.eval_ofWord env hmem
  rw [Expr.eval, Expr.eval, hw, Scalar.onReadings_ofWord hop, hidle]

theorem constant {n : Int64} (hop : op.type = .int) (hl : HasType Γ lhs .int)
    (hr : HasType Γ rhs .int)
    (hvalue : ∀ env mem a b, lhs.eval Scalar.interpretation env mem =
        Scalar.interpretation.ofWord a →
      rhs.eval Scalar.interpretation env mem = Scalar.interpretation.ofWord b →
      op.onWords a b = n) :
    Refolds Γ .int (.binary op lhs rhs) (.int n) := by
  refine ⟨.int n, fun env mem hmem => ?_⟩
  obtain ⟨a, ha⟩ := hl.eval_ofWord env hmem
  obtain ⟨b, hb⟩ := hr.eval_ofWord env hmem
  rw [Expr.eval, Expr.eval, ha, hb, Scalar.onReadings_ofWord hop, hvalue env mem a b ha hb]

theorem foldBinary (hl : HasType Γ lhs op.type) (hr : HasType Γ rhs op.type) :
    Refolds Γ op.type (.binary op lhs rhs) (Expr.foldBinary op lhs rhs) := by
  have h := Expr.foldsTo_foldBinary op lhs rhs
  generalize Expr.foldBinary op lhs rhs = e at h ⊢
  cases h with
  | kept => exact refl (.binary hl hr)
  | @int _ a b n hn =>
      have hop : op.type = .int := by
        generalize op.type = τ at hl
        cases hl
        rfl
      rw [hop]
      apply constant hop (.int a) (.int b)
      intro env mem a' b' ha hb
      have ha' : a = a' := congrArg Reading.word ha
      have hb' : b = b' := congrArg Reading.word hb
      rw [← ha', ← hb', BinaryOp.onWords_of_evalInt? hn]
  | and | or => exact ⟨.bool _, fun _ _ _ => rfl⟩
  | zeroAdd => exact keep_rhs rfl Int64.zero_add hr
  | addZero => exact keep_lhs rfl Int64.add_zero hl
  | subZero => exact keep_lhs rfl Int64.sub_zero hl
  | oneMul => exact keep_rhs rfl Int64.one_mul hr
  | mulOne => exact keep_lhs rfl Int64.mul_one hl
  | zeroMul =>
      apply constant rfl hl hr
      intro env mem a b ha _
      have ha0 : 0 = a := congrArg Reading.word ha
      rw [← ha0]
      exact Int64.zero_mul
  | mulZero =>
      apply constant rfl hl hr
      intro env mem a b _ hb
      have hb0 : 0 = b := congrArg Reading.word hb
      rw [← hb0]
      exact Int64.mul_zero

theorem evalIndex_map {f : Expr → Expr} {indices : List Expr}
    (h : ∀ i ∈ indices, Refolds Γ .int i (f i)) (env : Env) {mem : Memory Scalar}
    (hmem : mem.Typed Γ) :
    Expr.evalIndex Scalar.interpretation env mem (indices.map f) =
      Expr.evalIndex Scalar.interpretation env mem indices := by
  rw [Expr.evalIndex_eq, Expr.evalIndex_eq, List.map_map]
  apply List.map_congr_left
  intro i hi
  rw [Function.comp_apply, (h i hi).2 env mem hmem]

theorem fold {e : Expr} (h : HasType Γ e τ) : Refolds Γ τ e e.fold := by
  induction h with
  | int | float | bool | var => exact refl (by constructor)
  | binary _ _ ihl ihr =>
      obtain ⟨hl, hlhs⟩ := ihl
      obtain ⟨hr, hrhs⟩ := ihr
      obtain ⟨htype, heval⟩ := foldBinary hl hr
      rw [Expr.fold]
      refine ⟨htype, fun env mem hmem => ?_⟩
      rw [heval env mem hmem, Expr.eval, Expr.eval, hlhs env mem hmem, hrhs env mem hmem]
  | load _ ih =>
      rw [Expr.fold, Expr.foldAll_eq]
      refine ⟨.load (by simpa using fun i hi => (ih i hi).1), fun env mem hmem => ?_⟩
      rw [Expr.eval, Expr.eval, evalIndex_map ih env hmem]

theorem evalIndex_map_fold {indices : List Expr} (h : ∀ i ∈ indices, HasType Γ i .int) (env : Env)
    {mem : Memory Scalar} (hmem : mem.Typed Γ) :
    Expr.evalIndex Scalar.interpretation env mem (indices.map Expr.fold) =
      Expr.evalIndex Scalar.interpretation env mem indices :=
  evalIndex_map (fun i hi => fold (h i hi)) env hmem

end Refolds

/-! ## Statements -/

namespace WellTyped

theorem fold {e : Expr} (h : WellTyped Γ e) : WellTyped Γ e.fold := by
  induction h with
  | value he => exact .value (Refolds.fold he).1
  | handle tensor => exact .handle tensor
  | store hindices hvalue =>
      rw [Expr.fold, Expr.foldAll_eq]
      refine .store ?_ (Refolds.fold hvalue).1
      simpa using fun i hi => (Refolds.fold (hindices i hi)).1
  | loop hmin hextent _ ih => exact .loop (Refolds.fold hmin).1 (Refolds.fold hextent).1 ih
  | block _ ih =>
      rw [Expr.fold, Expr.foldAll_eq]
      apply WellTyped.block
      simpa using ih

theorem exec_fold {e : Expr} (h : WellTyped Γ e) (env : Env) {mem : Memory Scalar}
    (hmem : mem.Typed Γ) :
    e.fold.exec Scalar.interpretation env mem = e.exec Scalar.interpretation env mem := by
  induction h generalizing env mem with
  | value he =>
      rw [Expr.exec_of_not_isStatement he.not_isStatement,
        Expr.exec_of_not_isStatement (Refolds.fold he).1.not_isStatement]
  | handle tensor => rfl
  | @store tensor indices value hindices hvalue =>
      rw [Expr.fold, Expr.foldAll_eq, Expr.exec, Expr.exec,
        Refolds.evalIndex_map_fold hindices env hmem, (Refolds.fold hvalue).2 env mem hmem]
  | @loop v min extent marks body hmin hextent hbody ih =>
      rw [Expr.fold, Expr.exec, Expr.exec, (Refolds.fold hmin).2 env mem hmem,
        (Refolds.fold hextent).2 env mem hmem]
      apply Expr.foldl_congr_of_invariant (fun m => m.Typed Γ) _ hmem
      intro w _ m hm
      exact ⟨ih _ hm, hbody.exec_typed _ hm⟩
  | @block ss hss ih =>
      rw [Expr.fold, Expr.foldAll_eq, Expr.exec, Expr.exec, Expr.execAll_eq, Expr.execAll_eq,
        List.foldl_map]
      apply Expr.foldl_congr_of_invariant (fun m => m.Typed Γ) _ hmem
      intro s hs m hm
      exact ⟨ih s hs env hm, (hss s hs).exec_typed env hm⟩

end WellTyped

end Reductions
