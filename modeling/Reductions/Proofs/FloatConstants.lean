import Mathlib.Data.List.Flatten
import Reductions.Proofs.FoldingRules
import Reductions.Proofs.Occurrences

/-!
# Folding and floating-point numbers

Folding calculates with no floating-point number. It may still lose one: the
neutral and absorbing integers are looked for without regard to the operand
beside them, so adding zero to a number drops the operation, and multiplying by
zero drops the number as well. These are the only ways, and a tree without them
keeps its numbers and the operations on them, each in its order.
-/

namespace Reductions

structure Operation where
  op : BinaryOp
  lhs : Expr
  rhs : Expr

namespace Expr

def isFloat : Expr → Bool
  | float _ => true
  | _ => false

mutual

/-- The operations of a tree, each before those in its operands, from left to right. -/
def operations : Expr → List Operation
  | binary op lhs rhs => ⟨op, lhs, rhs⟩ :: (lhs.operations ++ rhs.operations)
  | load _ indices => operationsAll indices
  | store _ indices value => operationsAll indices ++ value.operations
  | loop _ min extent _ body => min.operations ++ extent.operations ++ body.operations
  | block ss => operationsAll ss
  | int _ | float _ | bool _ | var _ | handle _ => []

def operationsAll : List Expr → List Operation
  | [] => []
  | e :: es => e.operations ++ operationsAll es

end

end Expr

namespace Operation

/-- Folding has dealt with the operands. -/
def folded (o : Operation) : Operation :=
  ⟨o.op, o.lhs.fold, o.rhs.fold⟩

def onFloat (o : Operation) : Bool :=
  o.lhs.isFloat || o.rhs.isFloat

def Vanishes (o : Operation) : Prop :=
  o.op = .mul ∧ (o.lhs.asInt? = some 0 ∨ o.rhs.asInt? = some 0)

/-- One of the operands is an integer that decides the result on its own or leaves it to the other
operand. -/
def Idle (o : Operation) : Prop :=
  match o.op with
  | .add => o.lhs.asInt? = some 0 ∨ o.rhs.asInt? = some 0
  | .sub => o.rhs.asInt? = some 0
  | .mul => o.lhs.asInt? = some 1 ∨ o.rhs.asInt? = some 1 ∨
      (o.lhs.asInt? = some 0 ∨ o.rhs.asInt? = some 0)
  | _ => False

/-- Neither an operation on a number nor a number in an operand is lost. What counts is what the
operands have become, since only then integers are looked for. -/
def SparesFloats (o : Operation) : Prop :=
  (o.onFloat = true → ¬ o.folded.Idle) ∧
    (o.folded.Vanishes → o.lhs.floats = [] ∧ o.rhs.floats = [])

instance (o : Operation) : Decidable o.Vanishes :=
  inferInstanceAs (Decidable (_ ∧ _))

instance : (o : Operation) → Decidable o.Idle
  | ⟨.add, _, _⟩ | ⟨.mul, _, _⟩ => inferInstanceAs (Decidable (_ ∨ _))
  | ⟨.sub, _, _⟩ => inferInstanceAs (Decidable (_ = _))
  | ⟨.max, _, _⟩ | ⟨.min, _, _⟩ | ⟨.and, _, _⟩ | ⟨.or, _, _⟩ => isFalse nofun

instance (o : Operation) : Decidable o.SparesFloats :=
  inferInstanceAs (Decidable ((_ → ¬ _) ∧ (_ → _ ∧ _)))

end Operation

namespace Expr

def floatOperations (e : Expr) : List Operation :=
  e.operations.filter Operation.onFloat

/-! ## One operation -/

section OneOperation

variable {op : BinaryOp} {lhs rhs : Expr}

theorem ne_binary_lhs : lhs ≠ binary op lhs rhs := by
  intro h
  cases h

theorem ne_binary_rhs : rhs ≠ binary op lhs rhs := by
  intro h
  cases h

theorem dropIdle_eq_self_iff :
    dropIdle op lhs rhs = binary op lhs rhs ↔ ¬ Operation.Idle ⟨op, lhs, rhs⟩ := by
  cases op with
  | add | sub | mul =>
      simp only [dropIdle, Operation.Idle]
      split_ifs <;> simp_all [ne_binary_lhs, ne_binary_rhs]
  | max | min | and | or => simp [dropIdle, Operation.Idle]

theorem foldBinary_of_onFloat (h : Operation.onFloat ⟨op, lhs, rhs⟩ = true) :
    foldBinary op lhs rhs = dropIdle op lhs rhs := by
  rcases Bool.or_eq_true_iff.1 h with hl | hr
  · cases lhs with
    | float x => rfl
    | _ => cases hl
  · cases rhs with
    | float y => cases lhs <;> rfl
    | _ => cases hr

theorem foldBinary_of_vanishes (h : Operation.Vanishes ⟨op, lhs, rhs⟩) :
    foldBinary op lhs rhs = int 0 := by
  obtain ⟨hop, hzero⟩ := h
  obtain rfl : op = .mul := hop
  rcases hzero with hl0 | hr0
  · obtain rfl : lhs = int 0 := eq_int_of_asInt? hl0
    cases rhs with
    | int b =>
        have hproduct : BinaryOp.mul.evalInt? 0 b = some 0 := Word.int64?_eq_some_iff.2 (by simp)
        rw [foldBinary, hproduct]
    | _ => rfl
  · obtain rfl : rhs = int 0 := eq_int_of_asInt? hr0
    cases lhs with
    | int a =>
        have hproduct : BinaryOp.mul.evalInt? a 0 = some 0 := Word.int64?_eq_some_iff.2 (by simp)
        rw [foldBinary, hproduct]
    | _ => rfl

theorem foldBinary_eq_self_iff (h : Operation.onFloat ⟨op, lhs, rhs⟩ = true) :
    foldBinary op lhs rhs = binary op lhs rhs ↔ ¬ Operation.Idle ⟨op, lhs, rhs⟩ := by
  rw [foldBinary_of_onFloat h, dropIdle_eq_self_iff]

end OneOperation

namespace FoldsTo

variable {op : BinaryOp} {lhs rhs e : Expr}

theorem collect_eq {α : Type} {f : Expr → List α} (h : FoldsTo op lhs rhs e)
    (hkept : ¬ Operation.Vanishes ⟨op, lhs, rhs⟩) (hint : ∀ n, f (.int n) = [])
    (hbool : ∀ b, f (.bool b) = []) (hbinary : f (binary op lhs rhs) = f lhs ++ f rhs) :
    f e = f lhs ++ f rhs := by
  cases h with
  | kept => exact hbinary
  | int | and | or => simp [hint, hbool]
  | zeroAdd | oneMul => rw [hint, List.nil_append]
  | addZero | subZero | mulOne => rw [hint, List.append_nil]
  | zeroMul => exact absurd ⟨rfl, .inl rfl⟩ hkept
  | mulZero => exact absurd ⟨rfl, .inr rfl⟩ hkept

theorem mem_operations (h : FoldsTo op lhs rhs e) {o : Operation} (ho : o ∈ e.operations) :
    (o = ⟨op, lhs, rhs⟩ ∧ e = binary op lhs rhs) ∨ o ∈ lhs.operations ∨ o ∈ rhs.operations := by
  cases h with
  | kept =>
      rcases List.mem_cons.1 ho with rfl | hinner
      · exact .inl ⟨rfl, rfl⟩
      · exact .inr (List.mem_append.1 hinner)
  | int | and | or | zeroMul | mulZero => cases ho
  | addZero | subZero | mulOne => exact .inr (.inl ho)
  | zeroAdd | oneMul => exact .inr (.inr ho)

end FoldsTo

theorem floatOperations_binary (op : BinaryOp) (lhs rhs : Expr) :
    (binary op lhs rhs).floatOperations =
      [⟨op, lhs, rhs⟩].filter Operation.onFloat ++
        (lhs.floatOperations ++ rhs.floatOperations) := by
  rw [floatOperations, operations, ← List.singleton_append, List.filter_append,
    List.filter_append]
  rfl

section OneOperation

variable {op : BinaryOp} {lhs rhs : Expr}

theorem floatOperations_binary_of_not_onFloat (h : ¬ Operation.onFloat ⟨op, lhs, rhs⟩ = true) :
    (binary op lhs rhs).floatOperations = lhs.floatOperations ++ rhs.floatOperations := by
  rw [floatOperations_binary, List.filter_cons_of_neg h]
  rfl

theorem floats_foldBinary (hkept : ¬ Operation.Vanishes ⟨op, lhs, rhs⟩) :
    (foldBinary op lhs rhs).floats = lhs.floats ++ rhs.floats :=
  (foldsTo_foldBinary op lhs rhs).collect_eq hkept (fun _ => rfl) (fun _ => rfl) rfl

theorem floatOperations_foldBinary (hkept : ¬ Operation.Vanishes ⟨op, lhs, rhs⟩)
    (hbusy : Operation.onFloat ⟨op, lhs, rhs⟩ = true → ¬ Operation.Idle ⟨op, lhs, rhs⟩) :
    (foldBinary op lhs rhs).floatOperations = (binary op lhs rhs).floatOperations := by
  by_cases hfloat : Operation.onFloat ⟨op, lhs, rhs⟩ = true
  · rw [(foldBinary_eq_self_iff hfloat).2 (hbusy hfloat)]
  · have hbinary := floatOperations_binary_of_not_onFloat hfloat
    rw [hbinary]
    exact (foldsTo_foldBinary op lhs rhs).collect_eq hkept (fun _ => rfl) (fun _ => rfl) hbinary

theorem isFloat_foldBinary
    (hbusy : Operation.onFloat ⟨op, lhs, rhs⟩ = true → ¬ Operation.Idle ⟨op, lhs, rhs⟩) :
    (foldBinary op lhs rhs).isFloat = false := by
  by_cases hfloat : Operation.onFloat ⟨op, lhs, rhs⟩ = true
  · rw [(foldBinary_eq_self_iff hfloat).2 (hbusy hfloat)]
    rfl
  · obtain ⟨hl, hr⟩ := Bool.or_eq_false_iff.1 (Bool.eq_false_iff.2 hfloat)
    exact foldBinary_induct (P := fun e => e.isFloat = false) hl hr rfl (fun _ => rfl) fun _ => rfl

end OneOperation

/-! ## The parts of a tree -/

def isOperation : Expr → Bool
  | binary _ _ _ => true
  | _ => false

def parts : Expr → List Expr
  | binary _ lhs rhs => [lhs, rhs]
  | load _ indices => indices
  | store _ indices value => indices ++ [value]
  | loop _ min extent _ body => [min, extent, body]
  | block ss => ss
  | int _ | float _ | bool _ | var _ | handle _ => []

/-- Induction in which all trees that are neither operations nor numbers are one case. -/
@[elab_as_elim]
theorem induct_parts {motive : Expr → Prop} (float : ∀ x, motive (.float x))
    (binary : ∀ op lhs rhs, motive lhs → motive rhs → motive (.binary op lhs rhs))
    (other : ∀ e, e.isFloat = false → e.isOperation = false → (∀ p ∈ e.parts, motive p) → motive e)
    (e : Expr) : motive e := by
  induction e using Expr.induct with
  | float x => exact float x
  | binary op lhs rhs ihl ihr => exact binary op lhs rhs ihl ihr
  | int | bool | var | handle => exact other _ rfl rfl nofun
  | load tensor indices ih => exact other _ rfl rfl ih
  | store tensor indices value ihi ihv =>
      refine other _ rfl rfl fun p hp => ?_
      rcases List.mem_append.1 hp with hi | hv
      · exact ihi p hi
      · exact List.mem_singleton.1 hv ▸ ihv
  | loop v min extent marks body ihm ihe ihb => exact other _ rfl rfl (by simp [parts, *])
  | block ss ih => exact other _ rfl rfl ih

section Parts

variable {e : Expr}

theorem floats_eq_flatMap (h : e.isFloat = false) : e.floats = e.parts.flatMap floats := by
  cases e with
  | float => cases h
  | _ => simp [floats, floatsAll_eq, parts]

theorem operationsAll_eq (es : List Expr) : operationsAll es = es.flatMap operations := by
  induction es with
  | nil => rfl
  | cons e es ih => rw [operationsAll, ih, List.flatMap_cons]

theorem operations_eq_flatMap (h : e.isOperation = false) :
    e.operations = e.parts.flatMap operations := by
  cases e with
  | binary => cases h
  | _ => simp [operations, operationsAll_eq, parts]

theorem floatOperations_eq_flatMap (h : e.isOperation = false) :
    e.floatOperations = e.parts.flatMap floatOperations := by
  rw [floatOperations, operations_eq_flatMap h, List.filter_flatMap]
  rfl

theorem parts_fold (h : e.isOperation = false) : e.fold.parts = e.parts.map fold := by
  cases e with
  | binary => cases h
  | _ => simp [fold, foldAll_eq, parts]

theorem isOperation_fold (h : e.isOperation = false) : e.fold.isOperation = false := by
  cases e with
  | binary => cases h
  | _ => rfl

theorem isFloat_fold_of_not_operation (h : e.isOperation = false) : e.fold.isFloat = e.isFloat := by
  cases e with
  | binary => cases h
  | _ => rfl

theorem floats_fold_eq_flatMap (hfloat : e.isFloat = false) (hop : e.isOperation = false) :
    e.fold.floats = e.parts.flatMap fun p => p.fold.floats := by
  have hfold : e.fold.isFloat = false := (isFloat_fold_of_not_operation hop).trans hfloat
  rw [floats_eq_flatMap hfold, parts_fold hop, List.flatMap_map]

theorem operations_fold_eq_flatMap (h : e.isOperation = false) :
    e.fold.operations = e.parts.flatMap fun p => p.fold.operations := by
  rw [operations_eq_flatMap (isOperation_fold h), parts_fold h, List.flatMap_map]

theorem floatOperations_fold_eq_flatMap (h : e.isOperation = false) :
    e.fold.floatOperations = e.parts.flatMap fun p => p.fold.floatOperations := by
  rw [floatOperations_eq_flatMap (isOperation_fold h), parts_fold h, List.flatMap_map]

end Parts

/-! ## Numbers -/

theorem append_eq_append_iff_of_sublist {α : Type} {as as' bs bs' : List α} (ha : as.Sublist as')
    (hb : bs.Sublist bs') : as ++ bs = as' ++ bs' ↔ as = as' ∧ bs = bs' := by
  constructor
  · intro h
    have hlength := congrArg List.length h
    rw [List.length_append, List.length_append] at hlength
    have hlea := ha.length_le
    have hleb := hb.length_le
    exact ⟨ha.eq_of_length (by omega), hb.eq_of_length (by omega)⟩
  · rintro ⟨rfl, rfl⟩
    rfl

theorem flatMap_eq_flatMap_iff_of_sublist {α β : Type} {l : List α} {f g : α → List β}
    (h : ∀ a ∈ l, (f a).Sublist (g a)) : l.flatMap f = l.flatMap g ↔ ∀ a ∈ l, f a = g a := by
  induction l with
  | nil => simp
  | cons a l ih =>
      have htail : ∀ b ∈ l, (f b).Sublist (g b) := fun b hb => h b (List.mem_cons_of_mem _ hb)
      rw [List.flatMap_cons, List.flatMap_cons, List.forall_mem_cons, ← ih htail]
      exact append_eq_append_iff_of_sublist (h a List.mem_cons_self)
        (List.Sublist.flatMap_right l htail)

theorem floats_fold_sublist (e : Expr) : e.fold.floats.Sublist e.floats := by
  induction e using induct_parts with
  | float x => exact .refl _
  | binary op lhs rhs ihl ihr =>
      rw [fold, floats]
      by_cases hvanishes : Operation.Vanishes ⟨op, lhs.fold, rhs.fold⟩
      · rw [foldBinary_of_vanishes hvanishes]
        exact List.nil_sublist _
      · rw [floats_foldBinary hvanishes]
        exact ihl.append ihr
  | other e hfloat hop ih =>
      rw [floats_fold_eq_flatMap hfloat hop, floats_eq_flatMap hfloat]
      exact List.Sublist.flatMap_right _ ih

theorem floats_fold_eq_nil {e : Expr} (h : e.floats = []) : e.fold.floats = [] :=
  List.sublist_nil.1 (h ▸ e.floats_fold_sublist)

theorem floats_fold_eq_iff (e : Expr) :
    e.fold.floats = e.floats ↔
      ∀ o ∈ e.operations, o.folded.Vanishes → o.lhs.floats = [] ∧ o.rhs.floats = [] := by
  induction e using induct_parts with
  | float x => exact iff_of_true rfl nofun
  | binary op lhs rhs ihl ihr =>
      have happend : lhs.fold.floats ++ rhs.fold.floats = lhs.floats ++ rhs.floats ↔
          lhs.fold.floats = lhs.floats ∧ rhs.fold.floats = rhs.floats :=
        append_eq_append_iff_of_sublist lhs.floats_fold_sublist rhs.floats_fold_sublist
      rw [operations, List.forall_mem_cons, List.forall_mem_append, ← ihl, ← ihr, ← happend, fold,
        floats]
      by_cases hvanishes : Operation.Vanishes ⟨op, lhs.fold, rhs.fold⟩
      · rw [foldBinary_of_vanishes hvanishes]
        constructor
        -- The result has no number, so it has all of them only if there are none.
        · intro hnone
          obtain ⟨hl, hr⟩ := List.append_eq_nil_iff.1 hnone.symm
          rw [floats_fold_eq_nil hl, floats_fold_eq_nil hr, hl, hr]
          exact ⟨fun _ => ⟨rfl, rfl⟩, rfl⟩
        · rintro ⟨hnone, -⟩
          obtain ⟨hl, hr⟩ := hnone hvanishes
          rw [hl, hr]
          rfl
      · rw [floats_foldBinary hvanishes]
        exact (and_iff_right fun h => absurd h hvanishes).symm
  | other e hfloat hop ih =>
      rw [floats_fold_eq_flatMap hfloat hop, floats_eq_flatMap hfloat,
        flatMap_eq_flatMap_iff_of_sublist fun p _ => p.floats_fold_sublist,
        operations_eq_flatMap hop]
      constructor
      · intro h o ho
        obtain ⟨p, hp, hop⟩ := List.mem_flatMap.1 ho
        exact (ih p hp).1 (h p hp) o hop
      · intro h p hp
        exact (ih p hp).2 fun o ho => h o (List.mem_flatMap.2 ⟨p, hp, ho⟩)

/-! ## Operations on numbers -/

theorem foldBinary_of_mem_operations_fold (e : Expr) {o : Operation}
    (ho : o ∈ e.fold.operations) : foldBinary o.op o.lhs o.rhs = binary o.op o.lhs o.rhs := by
  induction e using induct_parts with
  | float x => cases ho
  | binary op lhs rhs ihl ihr =>
      rw [fold] at ho
      rcases (foldsTo_foldBinary op lhs.fold rhs.fold).mem_operations ho with ⟨rfl, hkept⟩ | hl | hr
      · exact hkept
      · exact ihl hl
      · exact ihr hr
  | other e hfloat hop ih =>
      rw [operations_fold_eq_flatMap hop] at ho
      obtain ⟨p, hp, hop⟩ := List.mem_flatMap.1 ho
      exact ih p hp hop

theorem isFloat_eq_false_of_floats {e : Expr} (h : e.floats = []) : e.isFloat = false := by
  cases e with
  | float => cases h
  | _ => rfl

theorem floatOperations_eq_nil {e : Expr} (h : e.floats = []) : e.floatOperations = [] := by
  induction e using induct_parts with
  | float x => rfl
  | binary op lhs rhs ihl ihr =>
      obtain ⟨hl, hr⟩ := List.append_eq_nil_iff.1 h
      have hfloat : ¬ Operation.onFloat ⟨op, lhs, rhs⟩ = true := by
        rw [Operation.onFloat, isFloat_eq_false_of_floats hl, isFloat_eq_false_of_floats hr]
        decide
      rw [floatOperations_binary_of_not_onFloat hfloat, ihl hl, ihr hr]
      rfl
  | other e hfloat hop ih =>
      rw [floats_eq_flatMap hfloat, List.flatMap_eq_nil_iff] at h
      rw [floatOperations_eq_flatMap hop, List.flatMap_eq_nil_iff]
      exact fun p hp => ih p hp (h p hp)

def SparesFloats (e : Expr) : Prop :=
  ∀ o ∈ e.operations, o.SparesFloats

theorem sparesFloats_binary {op : BinaryOp} {lhs rhs : Expr} :
    (binary op lhs rhs).SparesFloats ↔
      Operation.SparesFloats ⟨op, lhs, rhs⟩ ∧ lhs.SparesFloats ∧ rhs.SparesFloats := by
  rw [SparesFloats, operations, List.forall_mem_cons, List.forall_mem_append]
  rfl

theorem sparesFloats_iff_parts {e : Expr} (h : e.isOperation = false) :
    e.SparesFloats ↔ ∀ p ∈ e.parts, p.SparesFloats := by
  simp only [SparesFloats, operations_eq_flatMap h, List.mem_flatMap]
  constructor
  · intro h p hp o ho
    exact h o ⟨p, hp, ho⟩
  · rintro h o ⟨p, hp, ho⟩
    exact h p hp o ho

namespace SparesFloats

variable {e : Expr}

theorem isFloat_fold (h : e.SparesFloats) : e.fold.isFloat = e.isFloat := by
  induction e using induct_parts with
  | float x => rfl
  | binary op lhs rhs ihl ihr =>
      obtain ⟨⟨hbusy, -⟩, hl, hr⟩ := sparesFloats_binary.1 h
      rw [Operation.onFloat, ← ihl hl, ← ihr hr] at hbusy
      exact isFloat_foldBinary hbusy
  | other e _ hop _ => exact isFloat_fold_of_not_operation hop

theorem floatOperations_fold (h : e.SparesFloats) :
    e.fold.floatOperations = e.floatOperations.map Operation.folded := by
  induction e using induct_parts with
  | float x => rfl
  | binary op lhs rhs ihl ihr =>
      obtain ⟨⟨hbusy, hnumbers⟩, hl, hr⟩ := sparesFloats_binary.1 h
      have hsame : Operation.onFloat ⟨op, lhs.fold, rhs.fold⟩ = Operation.onFloat ⟨op, lhs, rhs⟩ :=
        congrArg₂ or hl.isFloat_fold hr.isFloat_fold
      rw [fold]
      by_cases hvanishes : Operation.Vanishes ⟨op, lhs.fold, rhs.fold⟩
      -- Nothing is left, but nothing was there either: an operation on a number has a number.
      · obtain ⟨hnol, hnor⟩ := hnumbers hvanishes
        have hnone : (binary op lhs rhs).floats = [] := List.append_eq_nil_iff.2 ⟨hnol, hnor⟩
        rw [foldBinary_of_vanishes hvanishes, floatOperations_eq_nil hnone]
        rfl
      · have hhead : [⟨op, lhs.fold, rhs.fold⟩].filter Operation.onFloat =
            ([⟨op, lhs, rhs⟩].filter Operation.onFloat).map Operation.folded := by
          rw [List.filter_cons, List.filter_cons, hsame]
          split <;> rfl
        rw [floatOperations_foldBinary hvanishes (hsame ▸ hbusy), floatOperations_binary,
          floatOperations_binary, hhead, ihl hl, ihr hr, List.map_append, List.map_append]
  | other e hfloat hop ih =>
      rw [sparesFloats_iff_parts hop] at h
      rw [floatOperations_fold_eq_flatMap hop, floatOperations_eq_flatMap hop, List.map_flatMap]
      exact List.flatMap_congr fun p hp => ih p hp (h p hp)

end SparesFloats

/-- The numbers of a folded tree are numbers of the tree, in their order, and no operation on them is
one that an integer makes idle. None is missing exactly if no number stands in a product with zero.
None is missing and every operation on a number is still there exactly if besides no integer makes
such an operation idle, and then they are still there in their order. -/
theorem fold_spares_floats_iff (e : Expr) :
    e.fold.floats.Sublist e.floats ∧
    (∀ o ∈ e.fold.floatOperations, ¬ o.Idle) ∧
    (e.fold.floats = e.floats ↔
      ∀ o ∈ e.operations, o.folded.Vanishes → o.lhs.floats = [] ∧ o.rhs.floats = []) ∧
    (e.fold.floats = e.floats ∧ (∀ o ∈ e.floatOperations, o.folded ∈ e.fold.floatOperations) ↔
      ∀ o ∈ e.operations, o.SparesFloats) ∧
    ((∀ o ∈ e.operations, o.SparesFloats) →
      e.fold.floatOperations = e.floatOperations.map Operation.folded) := by
  have hbusy : ∀ o ∈ e.fold.floatOperations, ¬ o.Idle := by
    intro o ho
    obtain ⟨hmem, hfloat⟩ := List.mem_filter.1 ho
    exact (foldBinary_eq_self_iff hfloat).1 (e.foldBinary_of_mem_operations_fold hmem)
  refine ⟨e.floats_fold_sublist, hbusy, e.floats_fold_eq_iff, ?_, SparesFloats.floatOperations_fold⟩
  rw [floats_fold_eq_iff]
  constructor
  · rintro ⟨hnumbers, hkept⟩ o ho
    refine ⟨fun hfloat => hbusy _ (hkept o ?_), hnumbers o ho⟩
    exact List.mem_filter.2 ⟨ho, hfloat⟩
  · intro h
    refine ⟨fun o ho => (h o ho).2, fun o ho => ?_⟩
    rw [SparesFloats.floatOperations_fold h]
    exact List.mem_map_of_mem ho

def scaling : Expr :=
  .store "t" [.binary .add (.binary .mul (.int 0) (.var "j")) (.var "i")]
    (.binary .mul (.binary .add (.float ⟨0x3ff8000000000000⟩) (.binary .mul (.int 1) (.var "i")))
      (.binary .max (.load "x" [.binary .sub (.var "i") (.int 0)]) (.float ⟨0x4004000000000000⟩)))

theorem fold_spares_floats_scaling :
    (∀ o ∈ scaling.operations, o.SparesFloats) ∧ scaling.fold.floats = scaling.floats ∧
      scaling.fold.floatOperations = scaling.floatOperations.map Operation.folded ∧
      scaling.floatOperations.map Operation.folded =
        [⟨.add, .float ⟨0x3ff8000000000000⟩, .var "i"⟩,
          ⟨.max, .load "x" [.var "i"], .float ⟨0x4004000000000000⟩⟩] := by
  have hspares : ∀ o ∈ scaling.operations, o.SparesFloats := by decide
  obtain ⟨_, _, _, hpresent, hsame⟩ := fold_spares_floats_iff scaling
  exact ⟨hspares, (hpresent.2 hspares).1, hsame hspares, by rfl⟩

/-! ## Numbers that are lost -/

def annihilated : Expr :=
  .binary .mul (.int 0) (.float ⟨0x3ff8000000000000⟩)

def bared : Expr :=
  .binary .add (.int 0) (.float ⟨0x3ff8000000000000⟩)

/-- The one loses its number, and the other the operation on it. -/
theorem fold_drops_floats :
    (annihilated.floats = [⟨0x3ff8000000000000⟩] ∧ annihilated.fold = .int 0 ∧
      annihilated.fold.floats ≠ annihilated.floats) ∧
    (bared.floatOperations = [⟨.add, .int 0, .float ⟨0x3ff8000000000000⟩⟩] ∧
      bared.fold = .float ⟨0x3ff8000000000000⟩ ∧ bared.fold.operations = []) := by
  refine ⟨⟨rfl, rfl, ?_⟩, rfl, rfl, rfl⟩
  decide

end Expr

end Reductions
