import Reductions.Tensor.ElementType
import Reductions.Tensor.ReductionKind
import Reductions.Tensor.Shape

/-!
# Tensors

A tensor is a program input or the result of a reduction, which it records together with the tensor
it reduces.
-/

namespace Reductions

/-- What every tensor has, however it is produced. -/
structure TensorHeader where
  name : String
  shape : Shape
  element : ElementType
deriving DecidableEq, Repr

inductive Tensor where
  | input (header : TensorHeader)
  /-- The result of reducing `source` along `axes`. -/
  | reduction (header : TensorHeader) (kind : ReductionKind) (source : Tensor)
      (axes : List UInt64) (keepdim : Bool)
deriving DecidableEq, Repr

namespace Tensor

def header : Tensor → TensorHeader
  | input header => header
  | reduction header _ _ _ _ => header

def name (t : Tensor) : String :=
  t.header.name

def shape (t : Tensor) : Shape :=
  t.header.shape

def element (t : Tensor) : ElementType :=
  t.header.element

def rank (t : Tensor) : Nat :=
  t.shape.rank

/-- The tensor that reducing `source` along `axes` produces: it takes the element type of `source`
and the reduced shape. -/
def reduce (source : Tensor) (kind : ReductionKind) (axes : List UInt64) (keepdim : Bool)
    (name : String) : Tensor :=
  .reduction ⟨name, source.shape.reduced axes keepdim, source.element⟩ kind source axes keepdim

def write (t : Tensor) : List Char :=
  let head := t.name.toList ++ [':', ' '] ++ t.element.name.toList ++ t.shape.write
  match t with
  | input _ => head
  | reduction _ kind source axes keepdim =>
    head ++ " = reduce_".toList ++ kind.label.toList ++ ['('] ++ source.name.toList
      ++ ", axes=".toList ++ Text.bracketed (axes.map fun axis => Numeral.ofNat axis.toNat)
      ++ ", keepdim=".toList ++ (toString keepdim).toList ++ [')']

def text (t : Tensor) : String :=
  String.ofList t.write

end Tensor

end Reductions
