import Mathlib.Logic.Function.Basic
import Reductions.Expr.Basic

/-!
# Execution of trees

The ordinary meaning of a tree, over any domain of element values. Loops and
index arithmetic work on signed words, as the integer constants of a tree do;
what is stored in a tensor comes from a domain `V` whose constants and
operations are a parameter. A loop evaluates its bounds once on entry, a block
runs its statements in order and a store writes one element.

An expression can stand where a word is expected and where an element is, so
evaluation gives both readings at once. Nothing here fails: a tensor has an
element at every index, and what has no meaning in a place reads as zero there.
-/

namespace Reductions

/-- The words that loop variables and the symbols of dimensions stand for. -/
abbrev Env := String → Int64

abbrev Index := List Int64

abbrev Memory (V : Type) := String → Index → V

/-- What the constants and operations of a tree mean for elements. -/
structure Interpretation (V : Type) where
  int : Int64 → V
  float : Binary64 → V
  bool : Bool → V
  apply : BinaryOp → V → V → V
  /-- The word that an element stands for in an index or a loop bound. -/
  toWord : V → Int64

/-- The two readings of an expression: as an index or loop bound, and as what is stored. -/
structure Reading (V : Type) where
  word : Int64
  element : V

variable {V : Type}

/-- Arithmetic of words wraps. The logical operations give no word. -/
def BinaryOp.onWords : BinaryOp → Int64 → Int64 → Int64
  | add, a, b => a + b
  | sub, a, b => a - b
  | mul, a, b => a * b
  | max, a, b => if a ≤ b then b else a
  | min, a, b => if a ≤ b then a else b
  | and, _, _ | or, _, _ => 0

namespace Interpretation

def ofWord (I : Interpretation V) (w : Int64) : Reading V :=
  ⟨w, I.int w⟩

def ofElement (I : Interpretation V) (x : V) : Reading V :=
  ⟨I.toWord x, x⟩

def onReadings (I : Interpretation V) (op : BinaryOp) (a b : Reading V) : Reading V :=
  ⟨op.onWords a.word b.word, I.apply op a.element b.element⟩

end Interpretation

namespace Memory

def write (mem : Memory V) (tensor : String) (place : Index) (x : V) : Memory V :=
  Function.update mem tensor (Function.update (mem tensor) place x)

theorem write_apply (mem : Memory V) (tensor t : String) (place i : Index) (x : V) :
    mem.write tensor place x t i = if t = tensor ∧ i = place then x else mem t i := by
  unfold write
  by_cases ht : t = tensor
  · subst ht
    by_cases hi : i = place
    · subst hi
      simp
    · simp [hi]
  · simp [ht]

theorem write_of_ne {mem : Memory V} {tensor t : String} (h : t ≠ tensor) (place : Index)
    (x : V) : mem.write tensor place x t = mem t :=
  Function.update_of_ne h _ _

end Memory

namespace Expr

mutual

/-- Both readings of an expression. A statement or a tensor as a whole reads as zero. -/
def eval (I : Interpretation V) (env : Env) (mem : Memory V) : Expr → Reading V
  | int n => I.ofWord n
  | float x => I.ofElement (I.float x)
  | bool b => I.ofElement (I.bool b)
  | var v => I.ofWord (env v)
  | binary op lhs rhs => I.onReadings op (lhs.eval I env mem) (rhs.eval I env mem)
  | load tensor indices => I.ofElement (mem tensor (evalIndex I env mem indices))
  | handle _ | store _ _ _ | loop _ _ _ _ _ | block _ => I.ofWord 0

def evalIndex (I : Interpretation V) (env : Env) (mem : Memory V) : List Expr → Index
  | [] => []
  | e :: es => (e.eval I env mem).word :: evalIndex I env mem es

end

def trips (first count : Int64) : List Int64 :=
  (List.range count.toNatClampNeg).map fun k => first + Int64.ofNat k

mutual

/-- The memory after the tree has run. An expression in the place of a statement does nothing. -/
def exec (I : Interpretation V) : Expr → Env → Memory V → Memory V
  | store tensor indices value, env, mem =>
    mem.write tensor (evalIndex I env mem indices) (value.eval I env mem).element
  | loop v min extent _ body, env, mem =>
    (trips (min.eval I env mem).word (extent.eval I env mem).word).foldl
      (fun m w => body.exec I (Function.update env v w) m) mem
  | block ss, env, mem => execAll I ss env mem
  | _, _, mem => mem

def execAll (I : Interpretation V) : List Expr → Env → Memory V → Memory V
  | [], _, mem => mem
  | s :: ss, env, mem => execAll I ss env (s.exec I env mem)

end

variable {I : Interpretation V} {env : Env} {mem : Memory V}

/-! ## Lists of parts -/

theorem evalIndex_eq (es : List Expr) :
    evalIndex I env mem es = es.map fun e => (e.eval I env mem).word := by
  induction es with
  | nil => rfl
  | cons e es ih => rw [evalIndex, ih, List.map_cons]

theorem execAll_eq (ss : List Expr) (env : Env) (mem : Memory V) :
    execAll I ss env mem = ss.foldl (fun m s => s.exec I env m) mem := by
  induction ss generalizing mem with
  | nil => rfl
  | cons s ss ih => rw [execAll, ih, List.foldl_cons]

theorem execAll_append (ss ts : List Expr) (env : Env) (mem : Memory V) :
    execAll I (ss ++ ts) env mem = execAll I ts env (execAll I ss env mem) := by
  rw [execAll_eq, execAll_eq, execAll_eq, List.foldl_append]

theorem execAll_singleton (s : Expr) (env : Env) (mem : Memory V) :
    execAll I [s] env mem = s.exec I env mem := rfl

theorem execAll_statements (e : Expr) (env : Env) (mem : Memory V) :
    execAll I e.statements env mem = e.exec I env mem := by
  cases e <;> rfl

theorem execAll_flatMap_statements (ss : List Expr) (env : Env) (mem : Memory V) :
    execAll I (ss.flatMap statements) env mem = execAll I ss env mem := by
  induction ss generalizing mem with
  | nil => rfl
  | cons s ss ih =>
      rw [List.flatMap_cons, execAll_append, execAll_statements, ih]
      rfl

/-! ## Loops -/

theorem foldl_congr_of_invariant {α β : Type} {f g : β → α → β} (P : β → Prop) {xs : List α}
    (hstep : ∀ x ∈ xs, ∀ b, P b → f b x = g b x ∧ P (g b x)) {b : β} (hb : P b) :
    xs.foldl f b = xs.foldl g b := by
  induction xs generalizing b with
  | nil => rfl
  | cons x xs ih =>
      obtain ⟨hsame, hkept⟩ := hstep x List.mem_cons_self b hb
      rw [List.foldl_cons, List.foldl_cons, hsame]
      apply ih
      · intro y hy
        exact hstep y (List.mem_cons_of_mem _ hy)
      · exact hkept

theorem trips_one (first : Int64) : trips first 1 = [first] := by
  have hcount : (1 : Int64).toNatClampNeg = 1 := Int64.toNatClampNeg_one
  simp [trips, hcount]

theorem eq_int_of_asInt? {e : Expr} {n : Int64} (h : e.asInt? = some n) : e = int n := by
  cases e with
  | int k => rw [Option.some.inj h]
  | _ => cases h

theorem exec_loop_one (v : String) (min : Expr) {extent : Expr} (hunit : extent.asInt? = some 1)
    (marks : LoopMarks) (body : Expr) (env : Env) (mem : Memory V) :
    (loop v min extent marks body).exec I env mem =
      body.exec I (Function.update env v (min.eval I env mem).word) mem := by
  rw [eq_int_of_asInt? hunit, exec, eval]
  change (trips _ 1).foldl _ mem = _
  rw [trips_one, List.foldl_cons, List.foldl_nil]

end Expr

end Reductions
