import Reductions.Proofs.FloatConstants
import Reductions.Proofs.Overflow
import Reductions.Proofs.Settled

/-!
# Folded trees

Folding goes through a tree once, innermost operations first, and once is
enough: what becomes of an operation is an operand that is folded already, a
constant, or the operation itself because no rule applies to it. So a tree is
folded exactly if no rule applies to any of its operations.
-/

namespace Reductions

namespace Operation

/-- Both operands are constants and the operation on them has a result. The result of an operation
on integers has to fit into a word. -/
def Constant (o : Operation) : Prop :=
  (∃ a b, o.lhs = .int a ∧ o.rhs = .int b ∧ o.op.type = .int ∧ o.op.Fits a b) ∨
    (∃ a b, o.lhs = .bool a ∧ o.rhs = .bool b ∧ o.op.type = .bool)

/-- A rule of folding applies: the operation is on constants, or a neutral or absorbing integer
stands on a side where it counts. -/
def Reducible (o : Operation) : Prop :=
  o.Constant ∨ o.Idle

variable {op : BinaryOp} {a b : Int64}

theorem Idle.fits (h : Idle ⟨op, .int a, .int b⟩) : op.type = .int ∧ op.Fits a b := by
  have ha := And.intro a.le_toInt a.toInt_lt
  have hb := And.intro b.le_toInt b.toInt_lt
  have hzero : (0 : Int64).toInt = 0 := rfl
  have hone : (1 : Int64).toInt = 1 := rfl
  cases op with
  | add =>
      refine ⟨rfl, ?_⟩
      rw [BinaryOp.Fits, BinaryOp.onIntegers]
      rcases h with hl | hr
      · rw [Option.some.inj hl, hzero]
        omega
      · rw [Option.some.inj hr, hzero]
        omega
  | sub =>
      refine ⟨rfl, ?_⟩
      rw [BinaryOp.Fits, BinaryOp.onIntegers, Option.some.inj h, hzero]
      omega
  | mul =>
      refine ⟨rfl, ?_⟩
      rw [BinaryOp.Fits, BinaryOp.onIntegers]
      rcases h with hl1 | hr1 | hl0 | hr0
      · rw [Option.some.inj hl1, hone]
        omega
      · rw [Option.some.inj hr1, hone]
        omega
      · rw [Option.some.inj hl0, hzero]
        omega
      · rw [Option.some.inj hr0, hzero]
        omega
  | max | min | and | or => cases h

end Operation

theorem BinaryOp.evalInt?_eq_none_iff {op : BinaryOp} {a b : Int64} :
    op.evalInt? a b = none ↔ ¬ (op.type = .int ∧ op.Fits a b) := by
  constructor
  · rintro hnone ⟨hop, hfits⟩
    rw [evalInt?_of_fits hop hfits] at hnone
    cases hnone
  · intro h
    by_cases hop : op.type = .int
    · exact evalInt?_of_not_fits fun hfits => h ⟨hop, hfits⟩
    · cases op with
      | and | or => rfl
      | _ => exact absurd rfl hop

namespace Expr

section OneOperation

variable {op : BinaryOp} {lhs rhs : Expr}

theorem foldBinary_int_eq_binary_iff {a b : Int64} :
    foldBinary op (int a) (int b) = binary op (int a) (int b) ↔
      ¬ Operation.Reducible ⟨op, int a, int b⟩ := by
  have hreducible : Operation.Reducible ⟨op, int a, int b⟩ ↔ op.type = .int ∧ op.Fits a b := by
    constructor
    · rintro ((⟨_, _, ⟨⟩, ⟨⟩, hfits⟩ | ⟨_, _, ⟨⟩, _⟩) | hidle)
      · exact hfits
      · exact hidle.fits
    · exact fun hfits => .inl (.inl ⟨a, b, rfl, rfl, hfits⟩)
  rw [hreducible, ← BinaryOp.evalInt?_eq_none_iff, foldBinary]
  cases op.evalInt? a b <;> simp

theorem foldBinary_bool_eq_binary_iff {a b : Bool} :
    foldBinary op (bool a) (bool b) = binary op (bool a) (bool b) ↔
      ¬ Operation.Reducible ⟨op, bool a, bool b⟩ := by
  have hreducible : Operation.Reducible ⟨op, bool a, bool b⟩ ↔ op.type = .bool := by
    constructor
    · rintro ((⟨_, _, ⟨⟩, _⟩ | ⟨_, _, ⟨⟩, ⟨⟩, hop⟩) | hidle)
      · exact hop
      · cases op <;> simp [Operation.Idle, asInt?] at hidle
    · exact fun hop => .inl (.inr ⟨a, b, rfl, rfl, hop⟩)
  rw [hreducible]
  cases op <;> simp [foldBinary, BinaryOp.type]

theorem foldBinary_eq_binary_iff :
    foldBinary op lhs rhs = binary op lhs rhs ↔ ¬ Operation.Reducible ⟨op, lhs, rhs⟩ := by
  unfold foldBinary
  split
  · exact foldBinary_int_eq_binary_iff
  · exact foldBinary_bool_eq_binary_iff
  · next hints hbools =>
    have hconstant : ¬ Operation.Constant ⟨op, lhs, rhs⟩ := by
      rintro (⟨a, b, hl, hr, -⟩ | ⟨a, b, hl, hr, -⟩)
      · exact hints a b hl hr
      · exact hbools a b hl hr
    rw [dropIdle_eq_self_iff, Operation.Reducible, or_iff_right hconstant]

end OneOperation

/-! ## Whole trees -/

theorem fold_eq_self_of_parts {e : Expr} (hop : e.isOperation = false)
    (h : ∀ p ∈ e.parts, p.fold = p) : e.fold = e := by
  cases e with
  | int | float | bool | var | handle => rfl
  | binary => cases hop
  | load tensor indices =>
      have hindices : ∀ i ∈ indices, i.fold = i := h
      rw [fold, Settled.foldAll_eq_self hindices]
  | store tensor indices value =>
      have hindices : ∀ i ∈ indices, i.fold = i := fun i hi => h i (List.mem_append_left _ hi)
      have hvalue : value.fold = value :=
        h value (List.mem_append_right _ (List.mem_singleton_self _))
      rw [fold, Settled.foldAll_eq_self hindices, hvalue]
  | loop v min extent marks body =>
      simp only [parts, List.mem_cons, List.not_mem_nil, or_false, forall_eq_or_imp,
        forall_eq] at h
      obtain ⟨hmin, hextent, hbody⟩ := h
      rw [fold, hmin, hextent, hbody]
  | block ss =>
      have hstatements : ∀ s ∈ ss, s.fold = s := h
      rw [fold, Settled.foldAll_eq_self hstatements]

theorem fold_eq_self {e : Expr} (h : ∀ o ∈ e.operations, ¬ o.Reducible) : e.fold = e := by
  induction e using Expr.induct_parts with
  | float => rfl
  | binary op lhs rhs ihl ihr =>
      rw [operations, List.forall_mem_cons, List.forall_mem_append] at h
      obtain ⟨hself, hlhs, hrhs⟩ := h
      rw [fold, ihl hlhs, ihr hrhs]
      exact foldBinary_eq_binary_iff.2 hself
  | other e _ hop ih =>
      apply fold_eq_self_of_parts hop
      intro p hp
      apply ih p hp
      intro o ho
      rw [operations_eq_flatMap hop] at h
      exact h o (List.mem_flatMap.2 ⟨p, hp, ho⟩)

theorem not_reducible_of_mem_operations_fold (e : Expr) :
    ∀ o ∈ e.fold.operations, ¬ o.Reducible := by
  induction e using Expr.induct_parts with
  | float => exact nofun
  | binary op lhs rhs ihl ihr =>
      intro o ho
      rcases (foldsTo_foldBinary op lhs.fold rhs.fold).mem_operations ho with
        ⟨rfl, hkept⟩ | hlhs | hrhs
      · exact foldBinary_eq_binary_iff.1 hkept
      · exact ihl o hlhs
      · exact ihr o hrhs
  | other e _ hop ih =>
      intro o ho
      rw [operations_fold_eq_flatMap hop] at ho
      obtain ⟨p, hp, hpart⟩ := List.mem_flatMap.1 ho
      exact ih p hp o hpart

/-- One folding is enough: a second one changes nothing, no rule applies to an operation of what the
first one leaves, and the trees without such an operation are the ones that folding leaves alone. -/
theorem fold_normal_form (e : Expr) :
    e.fold.fold = e.fold ∧ (∀ o ∈ e.fold.operations, ¬ o.Reducible) ∧
      (e.fold = e ↔ ∀ o ∈ e.operations, ¬ o.Reducible) := by
  have hnormal := not_reducible_of_mem_operations_fold e
  refine ⟨fold_eq_self hnormal, hnormal, ?_, fold_eq_self⟩
  intro hfolded
  rwa [hfolded] at hnormal

/-- The difference overflows and stays, the product with zero does not. -/
example :
    (Expr.binary .add (.binary .sub (.int 0) (.int Int64.minValue))
      (.binary .mul (.var "i") (.binary .sub (.int 1) (.int 1)))).fold =
      .binary .sub (.int 0) (.int Int64.minValue) := by
  rfl

end Expr

end Reductions
