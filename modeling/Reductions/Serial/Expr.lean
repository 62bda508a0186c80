import Reductions.Program
import Reductions.Serial.Tensor

/-!
# Trees and programs in documents
-/

namespace Reductions

def BinaryOp.toJson (op : BinaryOp) : Json :=
  .string op.label

def BinaryOp.ofJson? : Json → Option BinaryOp :=
  Serial.unit? BinaryOp.all BinaryOp.label

def LoopMarks.toJson (m : LoopMarks) : Json :=
  .string (String.ofList m.write)

def LoopMarks.ofJson? (j : Json) : Option LoopMarks :=
  j.asString?.bind fun s => LoopMarks.ofText? s.toList

namespace Expr

/-- A variable is a record with a name. -/
def variableToJson (name : String) : Json :=
  .object [("name", .string name)]

def variableOfJson? (j : Json) : Option String :=
  match Serial.fields? ["name"] j with
  | some [name] => Serial.required Json.asString? name
  | _ => none

mutual

def toJson : Expr → Json
  | int n => Serial.tagged "IntImm" (.int n.toInt)
  | float x => Serial.tagged "FloatImm" (Serial.ofFloat x)
  | bool b => Serial.tagged "BoolImm" (.bool b)
  | var name => Serial.tagged "Var" (variableToJson name)
  | handle tensor => Serial.tagged "Tensor" tensor.toJson
  | binary op lhs rhs => Serial.tagged "Binary" (.array [op.toJson, lhs.toJson, rhs.toJson])
  | load tensor indices =>
    Serial.tagged "Load" (.object [("tensor", .string tensor),
      ("indices", .array (toJsonAll indices))])
  | store tensor indices value =>
    Serial.tagged "Store" (.object [("tensor", .string tensor),
      ("indices", .array (toJsonAll indices)), ("value", value.toJson)])
  | loop v min extent marks body =>
    Serial.tagged "For" (.object [("var", variableToJson v), ("min", min.toJson),
      ("extent", extent.toJson), ("attrs", marks.toJson), ("body", body.toJson)])
  | block ss => Serial.tagged "Block" (.object [("stmts", .array (toJsonAll ss))])

def toJsonAll : List Expr → List Json
  | [] => []
  | e :: es => e.toJson :: toJsonAll es

end

def loopOfJson? (decode : Json → Option Expr) (j : Json) : Option Expr :=
  match Serial.fields? ["var", "min", "extent", "attrs", "body"] j with
  | some [v, min, extent, marks, body] => do
    let v ← Serial.required variableOfJson? v
    let min ← Serial.required decode min
    let extent ← Serial.required decode extent
    let marks ← Serial.required LoopMarks.ofJson? marks
    let body ← Serial.required decode body
    some (loop v min extent marks body)
  | _ => none

def blockOfJson? (decode : Json → Option Expr) (j : Json) : Option Expr :=
  match Serial.fields? ["stmts"] j with
  | some [ss] => (Serial.required (Serial.list? decode) ss).map block
  | _ => none

/-- Reads a load from its fields, which only an object can hold. -/
def loadOfJson? (decode : Json → Option Expr) : Json → Option Expr
  | .object members =>
    match Serial.fields? ["tensor", "indices"] (.object members) with
    | some [tensor, indices] => do
      let tensor ← Serial.required Json.asString? tensor
      let indices ← Serial.required (Serial.list? decode) indices
      some (load tensor indices)
    | _ => none
  | _ => none

/-- Reads a store from its fields, which only an object can hold. -/
def storeOfJson? (decode : Json → Option Expr) : Json → Option Expr
  | .object members =>
    match Serial.fields? ["tensor", "indices", "value"] (.object members) with
    | some [tensor, indices, value] => do
      let tensor ← Serial.required Json.asString? tensor
      let indices ← Serial.required (Serial.list? decode) indices
      let value ← Serial.required decode value
      some (store tensor indices value)
    | _ => none
  | _ => none

/-- Reads an operation from an array with its name and both operands. -/
def binaryOfJson? (decode : Json → Option Expr) : Json → Option Expr
  | .array [op, lhs, rhs] => do
    let op ← BinaryOp.ofJson? op
    let lhs ← decode lhs
    let rhs ← decode rhs
    some (binary op lhs rhs)
  | _ => none

def ofJsonWithin? (depth : Nat) (j : Json) : Option Expr :=
  match depth with
  | 0 => none
  | depth + 1 =>
    let decode := ofJsonWithin? depth
    match Serial.case? j with
    | some ("IntImm", some content) => (Serial.int64? content).map int
    | some ("FloatImm", some content) => (Serial.float? content).map float
    | some ("BoolImm", some content) => content.asBool?.map bool
    | some ("Var", some content) => (variableOfJson? content).map var
    | some ("Tensor", some content) => (Tensor.ofJson? content).map handle
    | some ("Binary", some content) => binaryOfJson? decode content
    | some ("Load", some content) => loadOfJson? decode content
    | some ("Store", some content) => storeOfJson? decode content
    | some ("For", some content) => loopOfJson? decode content
    | some ("Block", some content) => blockOfJson? decode content
    | _ => none

def ofJson? (j : Json) : Option Expr :=
  ofJsonWithin? j.depth j

theorem toJsonAll_eq (es : List Expr) : toJsonAll es = es.map toJson := by
  induction es with
  | nil => rfl
  | cons e es ih => simp [toJsonAll, ih]

end Expr

namespace Program

def toJson (p : Program) : Json :=
  .object [("exprs", Serial.ofList Expr.toJson p.roots)]

def ofJson? (j : Json) : Option Program :=
  match Serial.fields? ["exprs"] j with
  | some [roots] => (Serial.required (Serial.list? Expr.ofJson?) roots).map Program.mk
  | _ => none

end Program

namespace ProgramError

def label : ProgramError → String
  | empty => "EmptyModule"

def toJson (e : ProgramError) : Json :=
  .string e.label

def ofJson? : Json → Option ProgramError :=
  Serial.unit? [empty] label

end ProgramError

end Reductions
