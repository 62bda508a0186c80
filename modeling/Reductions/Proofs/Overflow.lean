import Mathlib.Algebra.Order.Ring.Int
import Reductions.Proofs.Folding
import Reductions.Proofs.Placement

/-!
# Folding and overflow

Arithmetic of words wraps: it is exact where a signed word holds the exact
result. Folding evaluates an operation on constants only there and leaves it as
it is elsewhere. What it drops besides are whole operations, so it never brings
an overflow into an evaluation that had none.
-/

namespace Reductions

/-! ## Exact results -/

/-- Arithmetic without bounds. The logical operations give no number. -/
def BinaryOp.onIntegers : BinaryOp → Int → Int → Int
  | add, a, b => a + b
  | sub, a, b => a - b
  | mul, a, b => a * b
  | max, a, b => Max.max a b
  | min, a, b => Min.min a b
  | and, _, _ | or, _, _ => 0

def BinaryOp.Fits (op : BinaryOp) (a b : Int64) : Prop :=
  -2 ^ 63 ≤ op.onIntegers a.toInt b.toInt ∧ op.onIntegers a.toInt b.toInt < 2 ^ 63

instance (op : BinaryOp) (a b : Int64) : Decidable (op.Fits a b) :=
  inferInstanceAs (Decidable (_ ∧ _))

namespace BinaryOp

variable {op : BinaryOp} {a b : Int64}

theorem fits_of_toInt_eq {n : Int64} (h : n.toInt = op.onIntegers a.toInt b.toInt) :
    op.Fits a b := by
  rw [Fits, ← h]
  exact ⟨n.le_toInt, n.toInt_lt⟩

theorem fits_iff (hop : op.type = .int) :
    op.Fits a b ↔ (op.onWords a b).toInt = op.onIntegers a.toInt b.toInt := by
  refine ⟨?_, fits_of_toInt_eq⟩
  rintro ⟨hlow, hhigh⟩
  cases op with
  | add =>
      rw [onWords, Int64.toInt_add]
      exact Int.bmod_eq_of_le hlow hhigh
  | sub =>
      rw [onWords, Int64.toInt_sub]
      exact Int.bmod_eq_of_le hlow hhigh
  | mul =>
      rw [onWords, Int64.toInt_mul]
      exact Int.bmod_eq_of_le hlow hhigh
  | max =>
      rw [onWords, onIntegers, Int.max_def]
      simp only [Int64.le_iff_toInt_le]
      exact apply_ite Int64.toInt _ _ _
  | min =>
      rw [onWords, onIntegers, Int.min_def]
      simp only [Int64.le_iff_toInt_le]
      exact apply_ite Int64.toInt _ _ _
  | and | or => cases hop

theorem evalInt?_of_fits (hop : op.type = .int) (h : op.Fits a b) :
    op.evalInt? a b = some (op.onWords a b) := by
  have hexact := (fits_iff hop).1 h
  cases op with
  | add | sub | mul => exact Word.int64?_eq_some_iff.2 hexact
  | max | min => rfl
  | and | or => cases hop

theorem evalInt?_of_not_fits (h : ¬ op.Fits a b) : op.evalInt? a b = none := by
  have ha := And.intro a.le_toInt a.toInt_lt
  have hb := And.intro b.le_toInt b.toInt_lt
  cases op with
  | add | sub | mul =>
      rw [Option.eq_none_iff_forall_ne_some]
      intro n hn
      exact h (fits_of_toInt_eq (Word.int64?_eq_some_iff.1 hn))
  | max | min =>
      rw [Fits, onIntegers] at h
      omega
  | and | or => rfl

end BinaryOp

/-! ## Evaluation without overflow -/

namespace Expr

mutual

/-- No operation overflows when the expression is evaluated. -/
def Exact (env : Env) (mem : Memory Scalar) : Expr → Prop
  | binary op lhs rhs =>
    lhs.Exact env mem ∧ rhs.Exact env mem ∧
      op.Fits (lhs.eval Scalar.interpretation env mem).word
        (rhs.eval Scalar.interpretation env mem).word
  | load _ indices => ExactAll env mem indices
  | _ => True

def ExactAll (env : Env) (mem : Memory Scalar) : List Expr → Prop
  | [] => True
  | e :: es => e.Exact env mem ∧ ExactAll env mem es

end

theorem exactAll_iff {env : Env} {mem : Memory Scalar} {es : List Expr} :
    ExactAll env mem es ↔ ∀ e ∈ es, e.Exact env mem := by
  induction es with
  | nil => simp [ExactAll]
  | cons e es ih => simp [ExactAll, ih]

section Constants

variable {op : BinaryOp} {lhs rhs : Expr} {a b : Int64}

theorem fold_binary_of_fits (hop : op.type = .int) (hlhs : lhs.fold = int a)
    (hrhs : rhs.fold = int b) (h : op.Fits a b) :
    (binary op lhs rhs).fold = int (op.onWords a b) := by
  rw [fold, hlhs, hrhs, foldBinary, BinaryOp.evalInt?_of_fits hop h]

theorem fold_binary_of_not_fits (hlhs : lhs.fold = int a) (hrhs : rhs.fold = int b)
    (h : ¬ op.Fits a b) : (binary op lhs rhs).fold = binary op (int a) (int b) := by
  rw [fold, hlhs, hrhs, foldBinary, BinaryOp.evalInt?_of_not_fits h]

end Constants

end Expr

variable {Γ : String → ScalarType}

theorem HasType.exact_fold {e : Expr} {τ : ScalarType} (h : HasType Γ e τ) {env : Env}
    {mem : Memory Scalar} (hmem : mem.Typed Γ) (hexact : e.Exact env mem) :
    e.fold.Exact env mem := by
  induction h with
  | int | float | bool | var => trivial
  | @binary op lhs rhs hl hr ihl ihr =>
      obtain ⟨hlhs, hrhs, hfits⟩ := hexact
      have hfolded : op.Fits (lhs.fold.eval Scalar.interpretation env mem).word
          (rhs.fold.eval Scalar.interpretation env mem).word := by
        rw [(Refolds.fold hl).2 env mem hmem, (Refolds.fold hr).2 env mem hmem]
        exact hfits
      rw [Expr.fold]
      exact Expr.foldBinary_induct (ihl hlhs) (ihr hrhs) ⟨ihl hlhs, ihr hrhs, hfolded⟩
        (fun _ => trivial) (fun _ => trivial)
  | load _ ih =>
      rw [Expr.Exact, Expr.exactAll_iff] at hexact
      rw [Expr.fold, Expr.foldAll_eq, Expr.Exact, Expr.exactAll_iff]
      simpa using fun i hi => ih i hi (hexact i hi)

/-- Folding a well typed expression keeps its type and its value under wrapping arithmetic, and
brings in no overflow. An operation on integer constants becomes its exact result if a word holds
this, and is left as it is otherwise. Folding a well typed tree keeps what the tree does. -/
theorem fold_keeps_meaning (Γ : String → ScalarType) :
    (∀ (e : Expr) (τ : ScalarType), HasType Γ e τ →
      HasType Γ e.fold τ ∧ ∀ (env : Env) (mem : Memory Scalar), mem.Typed Γ →
        e.fold.eval Scalar.interpretation env mem = e.eval Scalar.interpretation env mem ∧
        (e.Exact env mem → e.fold.Exact env mem)) ∧
    (∀ (op : BinaryOp) (lhs rhs : Expr) (a b : Int64), op.type = .int →
      lhs.fold = .int a → rhs.fold = .int b →
        (op.Fits a b → ∃ n : Int64, (Expr.binary op lhs rhs).fold = .int n ∧
          n.toInt = op.onIntegers a.toInt b.toInt) ∧
        (¬ op.Fits a b → (Expr.binary op lhs rhs).fold = .binary op (.int a) (.int b))) ∧
    (∀ e : Expr, WellTyped Γ e → ∀ (env : Env) (mem : Memory Scalar), mem.Typed Γ →
      e.fold.exec Scalar.interpretation env mem = e.exec Scalar.interpretation env mem) := by
  refine ⟨?_, ?_, ?_⟩
  · intro e τ htype
    obtain ⟨hfolded, heval⟩ := Refolds.fold htype
    exact ⟨hfolded, fun env mem hmem => ⟨heval env mem hmem, htype.exact_fold hmem⟩⟩
  · intro op lhs rhs a b hop hlhs hrhs
    constructor
    · intro hfits
      exact ⟨op.onWords a b, Expr.fold_binary_of_fits hop hlhs hrhs hfits,
        (BinaryOp.fits_iff hop).1 hfits⟩
    · exact Expr.fold_binary_of_not_fits hlhs hrhs
  · intro e htyped env mem hmem
    exact htyped.exec_fold env hmem

/-- A product with zero in an index, and an operation on constants at the end of their range. -/
def brink : Expr :=
  .binary .sub (.load "t" [.binary .add (.binary .mul (.int 0) (.var "j")) (.var "i")])
    (.binary .max (.int Int64.minValue) (.int (-5)))

theorem fold_keeps_meaning_brink :
    HasType (fun _ => .int) brink .int ∧ Memory.Typed (fun _ => .int) (fun _ _ => .int 3) ∧
      brink.Exact (fun _ => 4) (fun _ _ => .int 3) ∧
      brink.fold = .binary .sub (.load "t" [.var "i"]) (.int (-5)) ∧
      brink.fold.Exact (fun _ => 4) (fun _ _ => .int 3) ∧
      brink.fold.eval Scalar.interpretation (fun _ => 4) (fun _ _ => .int 3) =
        brink.eval Scalar.interpretation (fun _ => 4) (fun _ _ => .int 3) ∧
      BinaryOp.mul.Fits Int64.minValue 1 ∧ ¬ BinaryOp.mul.Fits Int64.minValue (-1) ∧
      (∃ n : Int64, (Expr.binary .mul (.int Int64.minValue) (.int 1)).fold = .int n ∧
        n.toInt = Int64.minValue.toInt) ∧
      (Expr.binary .mul (.int Int64.minValue) (.int (-1))).fold =
        .binary .mul (.int Int64.minValue) (.int (-1)) ∧
      WellTyped (fun _ => .int) (.store "u" [.var "i"] brink) ∧
      (Expr.store "u" [.var "i"] brink).fold.exec Scalar.interpretation (fun _ => 4)
          (fun _ _ => .int 3) =
        (Expr.store "u" [.var "i"] brink).exec Scalar.interpretation (fun _ => 4)
          (fun _ _ => .int 3) := by
  have hvar (v : String) : HasType (fun _ => .int) (.var v) .int := .var v
  have hproduct : HasType (fun _ => .int) (.binary .mul (.int 0) (.var "j")) .int :=
    .binary (.int 0) (hvar "j")
  have hindex : HasType (fun _ => .int)
      (.binary .add (.binary .mul (.int 0) (.var "j")) (.var "i")) .int :=
    .binary hproduct (hvar "i")
  have hmax : HasType (fun _ => .int) (.binary .max (.int Int64.minValue) (.int (-5))) .int :=
    .binary (.int _) (.int _)
  have htype : HasType (fun _ => .int) brink .int := .binary (.load (by simpa using hindex)) hmax
  have hmem : Memory.Typed (fun _ => .int) (fun _ _ => .int 3) := fun _ _ => rfl
  have hexact : brink.Exact (fun _ => 4) (fun _ _ => .int 3) :=
    ⟨⟨⟨⟨trivial, trivial, by decide⟩, trivial, by decide⟩, trivial⟩,
      ⟨trivial, trivial, by decide⟩, by decide⟩
  have hfits : BinaryOp.mul.Fits Int64.minValue 1 := by decide
  have hoverflow : ¬ BinaryOp.mul.Fits Int64.minValue (-1) := by decide
  have hstore : WellTyped (fun _ => .int) (.store "u" [.var "i"] brink) :=
    .store (by simpa using hvar "i") htype
  obtain ⟨hvalues, hconstants, hrun⟩ := fold_keeps_meaning fun _ => .int
  obtain ⟨heval, hkept⟩ := (hvalues brink .int htype).2 (fun _ => 4) _ hmem
  refine ⟨htype, hmem, hexact, by rfl, hkept hexact, heval, hfits, hoverflow, ?_, ?_, hstore,
    hrun _ hstore _ _ hmem⟩
  · exact (hconstants .mul (.int Int64.minValue) (.int 1) _ _ rfl rfl rfl).1 hfits
  · exact (hconstants .mul (.int Int64.minValue) (.int (-1)) _ _ rfl rfl rfl).2 hoverflow

end Reductions
