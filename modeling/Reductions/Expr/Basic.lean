import Reductions.Number.Binary64
import Reductions.Tensor.Basic
import Reductions.Expr.LoopMarks

/-!
# Trees of expressions and statements

One kind of tree holds both: expressions compute a value, statements (loops, blocks and stores) have
an effect. A tree is well placed when no statement stands where a value is expected; nothing here
relies on it.
-/

namespace Reductions

inductive BinaryOp where
  | add
  | sub
  | mul
  | max
  | min
  | and
  | or
deriving DecidableEq, Repr, Inhabited

namespace BinaryOp

def all : List BinaryOp :=
  [add, sub, mul, max, min, and, or]

def symbol : BinaryOp → String
  | add => "+"
  | sub => "-"
  | mul => "*"
  | max => "max"
  | min => "min"
  | and => "&&"
  | or => "||"

def label : BinaryOp → String
  | add => "Add"
  | sub => "Sub"
  | mul => "Mul"
  | max => "Max"
  | min => "Min"
  | and => "And"
  | or => "Or"

def isFunction : BinaryOp → Bool
  | max | min => true
  | _ => false

theorem mem_all (op : BinaryOp) : op ∈ all := by
  cases op <;> decide

end BinaryOp

inductive Expr where
  | int (value : Int64)
  | float (value : Binary64)
  | bool (value : Bool)
  /-- A loop variable or the symbol of a dimension. -/
  | var (name : String)
  | handle (tensor : Tensor)
  | binary (op : BinaryOp) (lhs rhs : Expr)
  | load (tensor : String) (indices : List Expr)
  | store (tensor : String) (indices : List Expr) (value : Expr)
  /-- Runs `body` with `var` from `min` on, `extent` times. -/
  | loop (var : String) (min extent : Expr) (marks : LoopMarks) (body : Expr)
  | block (statements : List Expr)
deriving Inhabited

/-- The number of times a loop over the dimension runs. A size that a signed word cannot hold wraps.
-/
def Dim.extent : Dim → Expr
  | .fixed size => .int (Int64.ofNat size.toNat)
  | .symbol name => .var name

namespace Expr

def asInt? : Expr → Option Int64
  | int value => some value
  | _ => none

def asTensor? : Expr → Option Tensor
  | handle tensor => some tensor
  | _ => none

/-- The statements of a block; any other tree is one statement. -/
def statements : Expr → List Expr
  | block ss => ss
  | e => [e]

def isBlock : Expr → Bool
  | block _ => true
  | _ => false

mutual

def countLoops : Expr → Nat
  | loop _ _ _ _ body => 1 + body.countLoops
  | block ss => countLoopsAll ss
  | _ => 0

def countLoopsAll : List Expr → Nat
  | [] => 0
  | s :: ss => s.countLoops + countLoopsAll ss

end

/-- Induction over trees in which a list of parts is handled through its members. -/
@[elab_as_elim]
theorem induct {motive : Expr → Prop}
    (int : ∀ n, motive (.int n)) (float : ∀ x, motive (.float x)) (bool : ∀ b, motive (.bool b))
    (var : ∀ v, motive (.var v)) (handle : ∀ t, motive (.handle t))
    (binary : ∀ op l r, motive l → motive r → motive (.binary op l r))
    (load : ∀ t is, (∀ i ∈ is, motive i) → motive (.load t is))
    (store : ∀ t is v, (∀ i ∈ is, motive i) → motive v → motive (.store t is v))
    (loop : ∀ v lo n marks body, motive lo → motive n → motive body →
      motive (.loop v lo n marks body))
    (block : ∀ ss, (∀ s ∈ ss, motive s) → motive (.block ss)) (e : Expr) : motive e :=
  Expr.rec (motive_1 := motive) (motive_2 := fun es => ∀ e ∈ es, motive e)
    int float bool var handle binary load store loop block
    (fun _ h => nomatch h)
    (fun _ _ head tail _ h => (List.mem_cons.1 h).elim (fun eq => eq ▸ head) (tail _))
    e

theorem countLoopsAll_append (as bs : List Expr) :
    countLoopsAll (as ++ bs) = countLoopsAll as + countLoopsAll bs := by
  induction as with
  | nil => simp [countLoopsAll]
  | cons a as ih => simp [countLoopsAll, ih, Nat.add_assoc]

end Expr

end Reductions
