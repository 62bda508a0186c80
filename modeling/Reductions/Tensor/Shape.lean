import Reductions.Number.Numeral
import Reductions.Text.Lines

/-!
# Shapes

A tensor has a list of dimensions. Each is a known size or a symbol that stands for a size known
later. Reducing a tensor along some axes gives the shape `Shape.reduced`.
-/

namespace Reductions

inductive Dim where
  | fixed (size : UInt64)
  | symbol (name : String)
deriving DecidableEq, Repr

structure Shape where
  dims : List Dim
deriving DecidableEq, Repr

/-- Whether axis `i` is one of the given axes. They may be in any order; if they are increasing, as
those of a resolved attribute are, a binary search finds the same. -/
def containsAxis (axes : List UInt64) (i : Nat) : Bool :=
  axes.any fun axis => axis.toNat == i

theorem containsAxis_eq_true_iff {axes : List UInt64} {i : Nat} :
    containsAxis axes i = true ↔ ∃ axis ∈ axes, axis.toNat = i := by
  simp [containsAxis]

namespace Dim

def isFixed : Dim → Bool
  | fixed _ => true
  | symbol _ => false

def write : Dim → List Char
  | fixed size => Numeral.ofNat size.toNat
  | symbol name => name.toList

end Dim

namespace Shape

def rank (s : Shape) : Nat :=
  s.dims.length

def isStatic (s : Shape) : Bool :=
  s.dims.all Dim.isFixed

/-- What is left of dimension `i` when the given axes are reduced. -/
def reduceDim (axes : List UInt64) (keepdim : Bool) (dim : Dim) (i : Nat) : Option Dim :=
  if containsAxis axes i then
    if keepdim then some (.fixed 1) else none
  else some dim

def reducedDims (s : Shape) (axes : List UInt64) (keepdim : Bool) : List Dim :=
  s.dims.zipIdx.filterMap fun (dim, i) => reduceDim axes keepdim dim i

/-- The shape after reducing `axes`: a reduced dimension has size one with `keepdim` and is dropped
without it. A reduction that leaves no dimension gives one of size one. -/
def reduced (s : Shape) (axes : List UInt64) (keepdim : Bool) : Shape :=
  match s.reducedDims axes keepdim with
  | [] => ⟨[.fixed 1]⟩
  | dims => ⟨dims⟩

def write (s : Shape) : List Char :=
  Text.bracketed (s.dims.map Dim.write)

theorem reduced_dims_ne_nil (s : Shape) (axes : List UInt64) (keepdim : Bool) :
    (s.reduced axes keepdim).dims ≠ [] := by
  unfold reduced
  split
  · simp
  · assumption

end Shape

end Reductions
