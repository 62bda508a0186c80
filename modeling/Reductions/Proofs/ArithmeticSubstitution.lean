import Reductions.Proofs.Scalars

/-!
# Substituting arithmetic

An arithmetic expression reads no tensor, so no store can change its value. If
moreover no loop of a tree binds one of its variables, it has one value in the
whole tree, and putting it for a variable is giving the variable that value. The
free variables of the result are then the expected ones.
-/

namespace Reductions

variable {V : Type}

/-- Operations on elements that are integers are the operations on words. -/
def Interpretation.AgreesOnWords (I : Interpretation V) : Prop :=
  ∀ (op : BinaryOp) (a b : Int64), op.type = .int →
    I.apply op (I.int a) (I.int b) = I.int (op.onWords a b)

theorem Scalar.agreesOnWords : interpretation.AgreesOnWords := by
  intro op a b hop
  exact congrArg Reading.element (onReadings_ofWord hop a b)

inductive IsArithmetic : Expr → Prop
  | int (n : Int64) : IsArithmetic (.int n)
  | var (v : String) : IsArithmetic (.var v)
  | binary {op : BinaryOp} {lhs rhs : Expr} : op.type = .int → IsArithmetic lhs →
      IsArithmetic rhs → IsArithmetic (.binary op lhs rhs)

namespace IsArithmetic

variable {I : Interpretation V} {r : Expr}

theorem not_isStatement (h : IsArithmetic r) : r.isStatement = false := by
  cases h <;> rfl

theorem reads_eq_nil (h : IsArithmetic r) : r.reads = [] := by
  induction h with
  | int | var => rfl
  | binary _ _ _ ihl ihr => rw [Expr.reads, ihl, ihr, List.nil_append]

theorem exists_value (h : IsArithmetic r) (hI : I.AgreesOnWords) (env : Env) :
    ∃ w, ∀ mem, r.eval I env mem = I.ofWord w := by
  induction h with
  | int n => exact ⟨n, fun _ => rfl⟩
  | var v => exact ⟨env v, fun _ => rfl⟩
  | @binary op _ _ hop _ _ ihl ihr =>
      obtain ⟨a, ha⟩ := ihl
      obtain ⟨b, hb⟩ := ihr
      refine ⟨op.onWords a b, fun mem => ?_⟩
      rw [Expr.eval, ha mem, hb mem]
      simp only [Interpretation.onReadings, Interpretation.ofWord, hI op a b hop]

end IsArithmetic

namespace Expr

mutual

def binders : Expr → List String
  | binary _ lhs rhs => lhs.binders ++ rhs.binders
  | load _ indices => bindersAll indices
  | store _ indices value => bindersAll indices ++ value.binders
  | loop v min extent _ body => v :: (min.binders ++ extent.binders ++ body.binders)
  | block ss => bindersAll ss
  | int _ | float _ | bool _ | var _ | handle _ => []

def bindersAll : List Expr → List String
  | [] => []
  | e :: es => e.binders ++ bindersAll es

end

theorem mem_bindersAll {x : String} {es : List Expr} :
    x ∈ bindersAll es ↔ ∃ e ∈ es, x ∈ e.binders := by
  induction es with
  | nil => simp [bindersAll]
  | cons e es ih => simp [bindersAll, ih]

/-- No loop of the tree binds a variable of `r`. -/
def Spares (e r : Expr) : Prop :=
  ∀ x ∈ r.freeVars, x ∉ e.binders

instance (e r : Expr) : Decidable (e.Spares r) :=
  inferInstanceAs (Decidable (∀ x ∈ r.freeVars, x ∉ e.binders))

section Spares

variable {r : Expr}

theorem spares_binary {op : BinaryOp} {lhs rhs : Expr} :
    (binary op lhs rhs).Spares r ↔ lhs.Spares r ∧ rhs.Spares r := by
  simp only [Spares, binders, List.mem_append, not_or, imp_and, forall_and]

theorem spares_loop {v : String} {min extent body : Expr} {marks : LoopMarks} :
    (loop v min extent marks body).Spares r ↔
      v ∉ r.freeVars ∧ min.Spares r ∧ extent.Spares r ∧ body.Spares r := by
  simp only [Spares, binders, List.mem_cons, List.mem_append, not_or, imp_and, forall_and,
    and_assoc]
  refine and_congr_left fun _ => ⟨fun h hv => h v hv rfl, ?_⟩
  rintro h x hx rfl
  exact h hx

theorem spares_of_mem_bindersAll (es : List Expr)
    (h : ∀ x ∈ r.freeVars, x ∉ bindersAll es) : ∀ e ∈ es, e.Spares r :=
  fun e he x hx hbound => h x hx (mem_bindersAll.2 ⟨e, he, hbound⟩)

theorem keeps_of_spares (v : String) (hreads : r.reads = []) {e : Expr} (h : e.Spares r) :
    Keeps v r e := by
  induction e using Expr.induct with
  | int | float | bool | var | handle | binary | load | store => trivial
  | loop x min extent marks body _ _ ih =>
      obtain ⟨hx, _, _, hbody⟩ := spares_loop.1 h
      rw [Keeps]
      exact .inr (.inr ⟨hx, by simp [hreads], ih hbody⟩)
  | block ss ih =>
      have hss := spares_of_mem_bindersAll ss h
      rw [Keeps]
      clear h
      induction ss with
      | nil => trivial
      | cons s ss ihss =>
          rw [List.forall_mem_cons] at ih hss
          exact ⟨ih.1 hss.1, ihss ih.2 hss.2, by simp [hreads]⟩

/-! ## Free variables -/

theorem mem_freeVarsAll_substitute {v x : String} {es : List Expr}
    (h : ∀ e ∈ es, (x ∈ (substitute v r e).freeVars ↔
      x ∈ e.freeVars ∧ x ≠ v ∨ v ∈ e.freeVars ∧ x ∈ r.freeVars)) :
    x ∈ freeVarsAll (substituteAll v r es) ↔
      x ∈ freeVarsAll es ∧ x ≠ v ∨ v ∈ freeVarsAll es ∧ x ∈ r.freeVars := by
  induction es with
  | nil => simp [substituteAll, freeVarsAll]
  | cons e es ih =>
      rw [List.forall_mem_cons] at h
      rw [substituteAll, freeVarsAll, List.mem_append, h.1, ih h.2, freeVarsAll, List.mem_append,
        List.mem_append]
      grind

theorem mem_freeVars_substitute {v x : String} {e : Expr} (h : e.Spares r) :
    x ∈ (substitute v r e).freeVars ↔
      x ∈ e.freeVars ∧ x ≠ v ∨ v ∈ e.freeVars ∧ x ∈ r.freeVars := by
  induction e using Expr.induct with
  | int | float | bool | handle => simp [substitute, freeVars]
  | var y =>
      rw [substitute]
      by_cases hy : y = v
      · subst hy
        simp [freeVars]
      · have hyv : v ≠ y := Ne.symm hy
        rw [if_neg hy]
        simp only [freeVars, List.mem_singleton, hyv, false_and, or_false]
        exact ⟨fun hx => ⟨hx, hx ▸ hy⟩, And.left⟩
  | binary op lhs rhs ihl ihr =>
      obtain ⟨hlhs, hrhs⟩ := spares_binary.1 h
      rw [substitute, freeVars, List.mem_append, ihl hlhs, ihr hrhs, freeVars, List.mem_append,
        List.mem_append]
      grind
  | load tensor indices ih =>
      have hindices := spares_of_mem_bindersAll indices h
      rw [substitute, freeVars, mem_freeVarsAll_substitute fun i hi => ih i hi (hindices i hi),
        freeVars]
  | store tensor indices value ihi ihv =>
      have hindices : ∀ i ∈ indices, i.Spares r :=
        spares_of_mem_bindersAll indices fun x hx hbound => h x hx (List.mem_append_left _ hbound)
      have hvalue : value.Spares r := fun x hx hbound => h x hx (List.mem_append_right _ hbound)
      rw [substitute, freeVars, List.mem_append,
        mem_freeVarsAll_substitute fun i hi => ihi i hi (hindices i hi), ihv hvalue, freeVars,
        List.mem_append, List.mem_append]
      grind
  | loop y min extent marks body ihm ihe ihb =>
      obtain ⟨hy, hmin, hextent, hbody⟩ := spares_loop.1 h
      have hxy : x ∈ r.freeVars → x ≠ y := fun hx heq => hy (heq ▸ hx)
      simp only [substitute, freeVars, List.mem_append, List.mem_filter, bne_iff_ne,
        ihm hmin, ihe hextent]
      by_cases hyv : y = v
      · -- The loop binds `v` itself, so only its bounds are changed.
        rw [if_pos hyv]
        grind
      · rw [if_neg hyv, ihb hbody]
        grind
  | block ss ih =>
      have hss := spares_of_mem_bindersAll ss h
      rw [substitute, freeVars, mem_freeVarsAll_substitute fun s hs => ih s hs (hss s hs),
        freeVars]

end Spares

/-- Putting an arithmetic expression for a variable is giving the variable its value, in values and
in effects, as long as no loop binds a variable of the expression. A loop may bind the variable that
is replaced, and statements may stand anywhere. -/
theorem substitute_assigns {I : Interpretation V} (hI : I.AgreesOnWords) (e : Expr) (v : String)
    {r : Expr} (hr : IsArithmetic r) (hspares : e.Spares r) :
    (∀ env, ∃ w, (∀ mem, r.eval I env mem = I.ofWord w) ∧
      ∀ mem,
        (substitute v r e).eval I env mem = e.eval I (Function.update env v w) mem ∧
        (substitute v r e).exec I env mem = e.exec I (Function.update env v w) mem) ∧
    ∀ x, x ∈ (substitute v r e).freeVars ↔
      x ∈ e.freeVars ∧ x ≠ v ∨ v ∈ e.freeVars ∧ x ∈ r.freeVars := by
  constructor
  · intro env
    obtain ⟨w, hw⟩ := hr.exists_value hI env
    refine ⟨w, hw, fun mem => ⟨eval_substitute (hw mem) e, ?_⟩⟩
    exact exec_substitute hr.not_isStatement (keeps_of_spares v hr.reads_eq_nil hspares) (hw mem)
  · exact fun x => mem_freeVars_substitute hspares

/-- A loop that binds the variable of its own lower bound, and a store behind it. -/
def rebinding : Expr :=
  .block [
    .loop "n" (.var "n") (.binary .max (.var "n") (.int 2)) .empty
      (.store "t" [.var "n"] (.binary .mul (.var "n") (.var "k"))),
    .store "u" [.var "n", .var "m"] (.load "t" [.binary .add (.var "n") (.var "k")])]

theorem substitute_assigns_rebinding :
    Scalar.interpretation.AgreesOnWords ∧ IsArithmetic (.binary .sub (.var "k") (.int 1)) ∧
      rebinding.Spares (.binary .sub (.var "k") (.int 1)) ∧
      (∀ mem, (substitute "n" (.binary .sub (.var "k") (.int 1)) rebinding).exec
          Scalar.interpretation (fun _ => 4) mem =
        rebinding.exec Scalar.interpretation (Function.update (fun _ => 4) "n" 3) mem) ∧
      "n" ∉ (substitute "n" (.binary .sub (.var "k") (.int 1)) rebinding).freeVars := by
  have harithmetic : IsArithmetic (.binary .sub (.var "k") (.int 1)) :=
    .binary rfl (.var "k") (.int 1)
  have hspares : rebinding.Spares (.binary .sub (.var "k") (.int 1)) := by decide
  obtain ⟨hvalue, hfree⟩ :=
    substitute_assigns Scalar.agreesOnWords rebinding "n" harithmetic hspares
  refine ⟨Scalar.agreesOnWords, harithmetic, hspares, fun mem => ?_, ?_⟩
  · obtain ⟨w, hw, hrun⟩ := hvalue fun _ => 4
    have hword : (4 : Int64) - 1 = w := congrArg Reading.word (hw mem)
    have hthree : (4 : Int64) - 1 = 3 := by decide
    rw [← hthree, hword]
    exact (hrun mem).2
  · rw [hfree]
    decide

end Expr

end Reductions
