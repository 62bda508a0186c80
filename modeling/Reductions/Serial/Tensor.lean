import Reductions.Serial.Document
import Reductions.Tensor.Basic

/-!
# Tensors in documents
-/

namespace Reductions

/-! ## Element types, kinds and shapes -/

def ElementType.toJson (t : ElementType) : Json :=
  .string t.label

def ElementType.ofJson? : Json → Option ElementType :=
  Serial.unit? ElementType.all ElementType.label

def ReductionKind.toJson (kind : ReductionKind) : Json :=
  .string kind.label

def ReductionKind.ofJson? : Json → Option ReductionKind :=
  Serial.unit? ReductionKind.table ReductionKind.label

def Dim.toJson : Dim → Json
  | fixed size => Serial.tagged "Static" (.int size.toNat)
  | symbol name => Serial.tagged "Symbolic" (.string name)

def Dim.ofJson? (j : Json) : Option Dim :=
  match Serial.case? j with
  | some ("Static", some content) => (Serial.uint64? content).map fixed
  | some ("Symbolic", some content) => content.asString?.map symbol
  | _ => none

def Shape.toJson (s : Shape) : Json :=
  Serial.ofList Dim.toJson s.dims

def Shape.ofJson? (j : Json) : Option Shape :=
  (Serial.list? Dim.ofJson? j).map Shape.mk

/-! ## Tensors -/

namespace Tensor

def fieldNames : List String :=
  ["name", "shape", "dtype", "op"]

def reductionFieldNames : List String :=
  ["kind", "input", "axes", "keepdim"]

def jsonWith (header : TensorHeader) (producer : Json) : Json :=
  .object [("name", .string header.name), ("shape", header.shape.toJson),
    ("dtype", header.element.toJson), ("op", producer)]

def toJson : Tensor → Json
  | input header => jsonWith header (.string "Placeholder")
  | reduction header kind source axes keepdim =>
    jsonWith header (Serial.tagged "Reduce" (.object [("kind", kind.toJson),
      ("input", source.toJson), ("axes", Serial.ofList (fun a => .int a.toNat) axes),
      ("keepdim", .bool keepdim)]))

def ofProducer? (decode : Json → Option Tensor) (header : TensorHeader) (producer : Json) :
    Option Tensor :=
  match Serial.case? producer with
  | some ("Placeholder", content) => if Serial.isVoid content then some (input header) else none
  | some ("Reduce", some (.object members)) =>
    match Serial.fields? reductionFieldNames (.object members) with
    | some [kind, source, axes, keepdim] => do
      let kind ← Serial.required ReductionKind.ofJson? kind
      let source ← Serial.required decode source
      let axes ← Serial.required (Serial.list? Serial.uint64?) axes
      let keepdim ← Serial.required Json.asBool? keepdim
      some (reduction header kind source axes keepdim)
    | _ => none
  | _ => none

def ofJsonWithin? (depth : Nat) (j : Json) : Option Tensor :=
  match depth with
  | 0 => none
  | depth + 1 =>
    match Serial.fields? fieldNames j with
    | some [name, shape, element, producer] => do
      let name ← Serial.required Json.asString? name
      let shape ← Serial.required Shape.ofJson? shape
      let element ← Serial.required ElementType.ofJson? element
      Serial.required (ofProducer? (ofJsonWithin? depth) ⟨name, shape, element⟩) producer
    | _ => none

def ofJson? (j : Json) : Option Tensor :=
  ofJsonWithin? j.depth j

end Tensor

end Reductions
