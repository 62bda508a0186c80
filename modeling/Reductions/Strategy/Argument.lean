import Reductions.Expr.Same

/-!
# Arguments

The functions of a strategy take and give packs of arguments of mixed types, which may hold packs in
turn. An expression that is only a tensor handle counts as the tensor.
-/

namespace Reductions

inductive Argument where
  | int (value : Int64)
  | float (value : Binary64)
  | string (value : String)
  | expr (tree : Expr)
  | tensor (tensor : Tensor)
  | pack (entries : List Argument)
deriving Inhabited

abbrev Pack := List Argument

namespace Argument

def asString? : Argument → Option String
  | string value => some value
  | _ => none

/-- The tensor, given directly or by its handle. -/
def asTensor? : Argument → Option Tensor
  | tensor t => some t
  | expr tree => tree.asTensor?
  | _ => none

def asStatement? : Argument → Option Expr
  | expr (.handle _) => none
  | expr tree => some tree
  | _ => none

def asPack? : Argument → Option Pack
  | pack entries => some entries
  | _ => none

def isTensor (a : Argument) : Bool :=
  a.asTensor?.isSome

mutual

/-- Whether two arguments agree, floating-point numbers in the sense of arithmetic. -/
def same : Argument → Argument → Bool
  | int a, int b => a == b
  | float a, float b => a.same b
  | string a, string b => a == b
  | expr a, expr b => a.same b
  | tensor a, tensor b => a == b
  | pack as, pack bs => sameAll as bs
  | _, _ => false

def sameAll : List Argument → List Argument → Bool
  | [], [] => true
  | a :: as, b :: bs => a.same b && sameAll as bs
  | _, _ => false

end

end Argument

def Pack.wrap (inner : Pack) : Pack :=
  [.pack inner]

end Reductions
