import Reductions.Proofs.Substitution

/-!
# Integers and booleans

The domain in which a tree computes with wrapping signed words and booleans.
Floating-point numbers can be stored and loaded in it, but not computed with.
A well typed tree has statements in the places of statements only and applies
every operation to operands of its type; `Γ` gives the type of the elements of
each tensor.
-/

namespace Reductions

inductive ScalarType where
  | int
  | float
  | bool
deriving DecidableEq, Repr

inductive Scalar where
  | int (value : Int64)
  | float (value : Binary64)
  | bool (value : Bool)
deriving DecidableEq, Repr

namespace Scalar

def type : Scalar → ScalarType
  | int _ => .int
  | float _ => .float
  | bool _ => .bool

/-- The result of an operation. One whose operands have the wrong type gives zero. -/
def apply : BinaryOp → Scalar → Scalar → Scalar
  | .and, bool a, bool b => bool (a && b)
  | .or, bool a, bool b => bool (a || b)
  | op, int a, int b => int (op.onWords a b)
  | _, _, _ => int 0

/-- The word of an integer. No other element can be an index. -/
def toWord : Scalar → Int64
  | int w => w
  | _ => 0

def interpretation : Interpretation Scalar where
  int := int
  float := float
  bool := bool
  apply := apply
  toWord := toWord

end Scalar

def BinaryOp.type : BinaryOp → ScalarType
  | and | or => .bool
  | add | sub | mul | max | min => .int

def Memory.Typed (Γ : String → ScalarType) (mem : Memory Scalar) : Prop :=
  ∀ tensor place, (mem tensor place).type = Γ tensor

inductive HasType (Γ : String → ScalarType) : Expr → ScalarType → Prop where
  | int (n : Int64) : HasType Γ (.int n) .int
  | float (x : Binary64) : HasType Γ (.float x) .float
  | bool (b : Bool) : HasType Γ (.bool b) .bool
  | var (v : String) : HasType Γ (.var v) .int
  | binary {op : BinaryOp} {lhs rhs : Expr} : HasType Γ lhs op.type → HasType Γ rhs op.type →
      HasType Γ (.binary op lhs rhs) op.type
  | load {tensor : String} {indices : List Expr} : (∀ i ∈ indices, HasType Γ i .int) →
      HasType Γ (.load tensor indices) (Γ tensor)

/-- The tree is one statement, or an expression that stands where a statement can. -/
inductive WellTyped (Γ : String → ScalarType) : Expr → Prop where
  | value {e : Expr} {τ : ScalarType} : HasType Γ e τ → WellTyped Γ e
  | handle (tensor : Tensor) : WellTyped Γ (.handle tensor)
  | store {tensor : String} {indices : List Expr} {value : Expr} :
      (∀ i ∈ indices, HasType Γ i .int) → HasType Γ value (Γ tensor) →
      WellTyped Γ (.store tensor indices value)
  | loop {v : String} {min extent : Expr} {marks : LoopMarks} {body : Expr} :
      HasType Γ min .int → HasType Γ extent .int → WellTyped Γ body →
      WellTyped Γ (.loop v min extent marks body)
  | block {ss : List Expr} : (∀ s ∈ ss, WellTyped Γ s) → WellTyped Γ (.block ss)

variable {Γ : String → ScalarType}

/-! ## Elements by type -/

namespace Scalar

theorem exists_int {x : Scalar} (h : x.type = .int) : ∃ w, x = int w := by
  cases x with
  | int w => exact ⟨w, rfl⟩
  | float | bool => cases h

theorem exists_bool {x : Scalar} (h : x.type = .bool) : ∃ b, x = bool b := by
  cases x with
  | bool b => exact ⟨b, rfl⟩
  | int | float => cases h

theorem onReadings_ofWord {op : BinaryOp} (hop : op.type = .int) (a b : Int64) :
    interpretation.onReadings op (interpretation.ofWord a) (interpretation.ofWord b) =
      interpretation.ofWord (op.onWords a b) := by
  cases op with
  | and | or => cases hop
  | _ => rfl

theorem onReadings_ofElement {op : BinaryOp} {x y : Scalar} (hx : x.type = op.type)
    (hy : y.type = op.type) :
    ∃ z : Scalar, z.type = op.type ∧
      interpretation.onReadings op (interpretation.ofElement x) (interpretation.ofElement y) =
        interpretation.ofElement z := by
  cases hop : op.type with
  | int =>
      obtain ⟨a, rfl⟩ := exists_int (hx.trans hop)
      obtain ⟨b, rfl⟩ := exists_int (hy.trans hop)
      exact ⟨int (op.onWords a b), rfl, onReadings_ofWord hop a b⟩
  | bool =>
      obtain ⟨a, rfl⟩ := exists_bool (hx.trans hop)
      obtain ⟨b, rfl⟩ := exists_bool (hy.trans hop)
      cases op with
      | and => exact ⟨bool (a && b), rfl, rfl⟩
      | or => exact ⟨bool (a || b), rfl, rfl⟩
      | _ => cases hop
  | float => cases op <;> cases hop

end Scalar

/-! ## Typed expressions -/

namespace HasType

variable {e lhs rhs r : Expr} {τ : ScalarType} {op : BinaryOp}

theorem not_isStatement (h : HasType Γ e τ) : e.isStatement = false := by
  cases h <;> rfl

theorem eval_ofElement (h : HasType Γ e τ) (env : Env) {mem : Memory Scalar}
    (hmem : mem.Typed Γ) :
    ∃ x : Scalar, x.type = τ ∧
      e.eval Scalar.interpretation env mem = Scalar.interpretation.ofElement x := by
  induction h with
  | int n => exact ⟨.int n, rfl, rfl⟩
  | float x => exact ⟨.float x, rfl, rfl⟩
  | bool b => exact ⟨.bool b, rfl, rfl⟩
  | var v => exact ⟨.int (env v), rfl, rfl⟩
  | binary _ _ ihl ihr =>
      obtain ⟨x, hx, hlhs⟩ := ihl
      obtain ⟨y, hy, hrhs⟩ := ihr
      obtain ⟨z, hz, hboth⟩ := Scalar.onReadings_ofElement hx hy
      refine ⟨z, hz, ?_⟩
      rw [Expr.eval, hlhs, hrhs, hboth]
  | load _ _ => exact ⟨_, hmem _ _, rfl⟩

theorem eval_ofWord (h : HasType Γ e .int) (env : Env) {mem : Memory Scalar}
    (hmem : mem.Typed Γ) :
    ∃ w, e.eval Scalar.interpretation env mem = Scalar.interpretation.ofWord w := by
  obtain ⟨x, hx, heval⟩ := h.eval_ofElement env hmem
  obtain ⟨w, rfl⟩ := Scalar.exists_int hx
  exact ⟨w, heval⟩

theorem substitute (h : HasType Γ e τ) (v : String) (hr : HasType Γ r .int) :
    HasType Γ (Expr.substitute v r e) τ := by
  induction h with
  | int n => exact .int n
  | float x => exact .float x
  | bool b => exact .bool b
  | var x =>
      rw [Expr.substitute]
      by_cases hx : x = v
      · rw [if_pos hx]
        exact hr
      · rw [if_neg hx]
        exact .var x
  | binary _ _ ihl ihr => exact .binary ihl ihr
  | load _ ih =>
      rw [Expr.substitute, Expr.substituteAll_eq]
      apply HasType.load
      simpa using ih

end HasType

/-! ## Typed statements -/

namespace WellTyped

theorem substitute {e r : Expr} (h : WellTyped Γ e) (v : String) (hr : HasType Γ r .int) :
    WellTyped Γ (Expr.substitute v r e) := by
  induction h with
  | value he => exact .value (he.substitute v hr)
  | handle tensor => exact .handle tensor
  | store hindices hvalue =>
      rw [Expr.substitute, Expr.substituteAll_eq]
      refine .store ?_ (hvalue.substitute v hr)
      simpa using fun i hi => (hindices i hi).substitute v hr
  | @loop x min extent marks body hmin hextent hbody ih =>
      rw [Expr.substitute]
      refine .loop (hmin.substitute v hr) (hextent.substitute v hr) ?_
      by_cases hx : x = v
      · rw [if_pos hx]
        exact hbody
      · rw [if_neg hx]
        exact ih
  | block _ ih =>
      rw [Expr.substitute, Expr.substituteAll_eq]
      apply WellTyped.block
      simpa using ih

theorem exec_typed {e : Expr} (h : WellTyped Γ e) (env : Env) {mem : Memory Scalar}
    (hmem : mem.Typed Γ) : (e.exec Scalar.interpretation env mem).Typed Γ := by
  induction h generalizing env mem with
  | value he =>
      rw [Expr.exec_of_not_isStatement he.not_isStatement]
      exact hmem
  | handle tensor => exact hmem
  | @store tensor indices value _ hvalue =>
      obtain ⟨x, hx, heval⟩ := hvalue.eval_ofElement env hmem
      intro t i
      rw [Expr.exec, heval, Memory.write_apply]
      by_cases hwritten : t = tensor ∧ i = Expr.evalIndex Scalar.interpretation env mem indices
      · rw [if_pos hwritten, hwritten.1]
        exact hx
      · rw [if_neg hwritten]
        exact hmem t i
  | loop _ _ _ ih =>
      rw [Expr.exec]
      exact List.foldlRecOn _ _ hmem fun m hm w _ => ih _ hm
  | block _ ih =>
      rw [Expr.exec, Expr.execAll_eq]
      exact List.foldlRecOn _ _ hmem fun m hm s hs => ih s hs env hm

end WellTyped

end Reductions
