import Reductions.CommandLine.Arguments
import Reductions.Config.Load
import Reductions.Reduction.Lowering
import Reductions.Registry

/-!
# Running the program

The program lists the registered operators, or shows every stage of one reduction: the
implementation that is chosen, the result tensor, and the scheduled tree or, when shapes are
symbolic, the lowered program. What it prints before a failure stays.
-/

namespace Reductions.CommandLine

inductive Failure where
  | config (path : String) (cause : ConfigError)
  | registry (cause : RegistryError)
  | arch (cause : ArchError)
  | strategy (cause : StrategyError)
  | lowering (cause : LoweringError)
  | unknownOperator (name : String)
  | symbolicShape (shape : Shape)
  | noImplementation (operator : String)
  | notAReduction (name : String)
  | noTensor
  | noStatementTree

namespace Failure

def message : Failure → String
  | config path _ => "loading " ++ path
  | registry cause => cause.message
  | arch cause => cause.message
  | strategy cause => cause.message
  | lowering cause => cause.message
  | unknownOperator name => "unknown operator `" ++ name ++ "`"
  | symbolicShape shape =>
    "shape " ++ String.ofList shape.write ++ " has symbolic dimensions; pass --symbolic"
  | noImplementation operator => "`" ++ operator ++ "` has no implementation"
  | notAReduction name => "`" ++ name ++ "` is not a reduction"
  | noTensor => "compute returned no tensor"
  | noStatementTree => "schedule returned no statement tree"

/-- The causes behind a failure, the nearest first. -/
def causes : Failure → List String
  | config _ cause => cause.message :: cause.source?.toList
  | _ => []

/-- A text whose lines after the first are moved in by this many blanks. -/
def moveIn (width : Nat) (text : String) : List Char :=
  text.toList.flatMap fun c => if c = '\n' then c :: List.replicate width ' ' else [c]

def numberedFrom (i : Nat) : List String → List (List Char)
  | [] => []
  | cause :: rest =>
    let number := Numeral.ofNat i
    (List.replicate (5 - number.length) ' ' ++ number ++ [':', ' '] ++ moveIn 7 cause)
      :: numberedFrom (i + 1) rest

def causeLines : List String → List (List Char)
  | [cause] => [List.replicate 4 ' ' ++ moveIn 4 cause]
  | causes => numberedFrom 0 causes

def report (f : Failure) : String :=
  let head := "Error: ".toList ++ f.message.toList ++ ['\n']
  let tail := match f.causes with
    | [] => []
    | causes => "\nCaused by:\n".toList ++ Text.join ['\n'] (causeLines causes) ++ ['\n']
  String.ofList (head ++ tail)

end Failure

structure Output where
  lines : List Char
  failure : Option Failure

namespace Output

def failed (f : Failure) : Output := ⟨[], some f⟩

def andThen (outcome : Except Failure α) (next : α → Output) : Output :=
  match outcome with
  | .ok a => next a
  | .error f => failed f

def print (text : List Char) (next : Output) : Output :=
  ⟨text ++ next.lines, next.failure⟩

def done : Output := ⟨[], none⟩

end Output

/-! ## Listing operators -/

def nameWidth : Nat := 12

def operatorLine (r : OperatorRecord) : List Char :=
  Text.padRight nameWidth r.name.toList ++ ' ' :: r.pattern.label.toList ++ " inputs=".toList
    ++ Numeral.ofNat r.numInputs ++ " outputs=".toList ++ Numeral.ofNat r.numOutputs
    ++ " level=".toList ++ Numeral.ofNat r.supportLevel.toNat ++ " dtype=".toList
    ++ (match r.element with
      | some element => element.name.toList
      | none => "any".toList)
    ++ ['\n']

def listOperators (r : Registry) : Output :=
  .print ((r.names.filterMap r.get?).flatMap operatorLine) .done

/-! ## Lowering one reduction -/

def dimOf (piece : String) : Dim :=
  let text := Text.trim piece.toList
  match (Numeral.toUnsigned? 10 text).bind fun n => Word.uint64? n with
  | some size => .fixed size
  | none => .symbol (String.ofList text)

/-- The target from the command line, else from the options, else the host. -/
def chooseTarget (request : LowerRequest) (options : Options) : Except ArchError Target :=
  match request.target.or options.target with
  | some name => Target.parse name
  | none => .ok .host

def attributesOf (request : LowerRequest) : AttrStore :=
  .ofList [(keepdimAttr, .bool request.keepdim),
    (axisAttr, if request.allAxes then .bool true else .int64s request.axes)]

def emitAgain (emitter : Emitter) (operator : String) (input result : Tensor) :
    Except Failure (List Tensor) :=
  match result with
  | .input header => .error (.notAReduction header.name)
  | .reduction header _ _ axes keepdim =>
    match ReductionOperator.find? operator with
    | none => .error (.notAReduction operator)
    | some op =>
      match emitter with
      | .naive => .ok [result]
      | other => .ok (op.emit other input axes keepdim header.name)

def showTrees (i : Implementation) (tensors : List Tensor) (trees : List Expr) : Output :=
  match i.schedule with
  | none =>
    .print "lowered (scheduling deferred):\n".toList (.print (Program.mk trees).text.toList .done)
  | some schedule =>
    .andThen ((schedule (trees.map .expr ++ tensors.map .tensor)).mapError .strategy) fun pack =>
      match pack.head?.bind Argument.asStatement? with
      | none => .failed .noStatementTree
      | some tree => .print "schedule:\n".toList (.print tree.write .done)

def showResult (request : LowerRequest) (i : Implementation) (input : Tensor) : Output :=
  .andThen ((i.compute (Pack.wrap [.tensor input, .string "out"])).mapError .strategy) fun pack =>
    match pack.head?.bind Argument.asTensor? with
    | none => .failed .noTensor
    | some result =>
      .print ("compute: ".toList ++ result.write ++ ['\n'])
        (.andThen (emitAgain request.emitter request.operator input result) fun tensors =>
          .andThen ((tensors.mapM Tensor.lower).mapError .lowering) fun trees =>
            showTrees i tensors trees)

def lowerOperator (registry : Registry) (request : LowerRequest) (target : Target) : Output :=
  match registry.get? request.operator with
  | none => .failed (.unknownOperator request.operator)
  | some record =>
    let shape : Shape := ⟨request.shape.map dimOf⟩
    if !request.symbolic && !shape.isStatic then .failed (.symbolicShape shape)
    else
      let input : Tensor := .input ⟨"x", shape, request.element⟩
      let call : OperatorCall :=
        { attrs := attributesOf request
          inputs := [input]
          resultElements := [request.element]
          resultShapes := []
          target := target }
      let regime : ShapeRegime := if request.symbolic then .symbolic else .static
      .andThen ((record.builder regime call).mapError .strategy) fun strategy =>
        match strategy.best? with
        | none => .failed (.noImplementation request.operator)
        | some i =>
          .print ("impl: ".toList ++ i.name.toList ++ " (priority ".toList
              ++ Numeral.ofInt i.priority.toInt ++ [')', '\n'])
            (showResult request i input)

/-! ## The program -/

structure Outcome where
  exitCode : Nat
  stdout : String
  stderr : String
deriving DecidableEq, Repr

def loadOptions (read : FileReader) (invocation : Invocation) : Except Failure Options :=
  match invocation.config with
  | none => .ok {}
  | some path => (Options.load read path).mapError (.config path)

def execute (read : FileReader) (invocation : Invocation) : Output :=
  .andThen (loadOptions read invocation) fun options =>
    let (_, installed) := GlobalRegistry.uninitialized.init options.strategy
    .andThen (installed.mapError .registry) fun registry =>
      match invocation.command with
      | .list => listOperators registry
      | .lower request =>
        .andThen ((chooseTarget request options).mapError .arch) (lowerOperator registry request)

def versionText : String := "ember 0.1.0\n"

def helpText : String :=
  "Usage: ember [--config FILE] [-v] <COMMAND>\n\n"
    ++ "Commands:\n"
    ++ "  list        List registered operators\n"
    ++ "  lower <OP>  Build, compute, lower and schedule one reduction\n\n"
    ++ "Options of lower:\n"
    ++ "  --shape DIMS  --axis AXES  --all-axes  --keepdim  --dtype TYPE\n"
    ++ "  --target ARCH  --symbolic  --emitter EMITTER\n"

def run (read : FileReader) (args : List String) : Outcome :=
  match parse args with
  | .error .version => ⟨0, versionText, ""⟩
  | .error .help => ⟨0, helpText, ""⟩
  | .error (.usage e) => ⟨2, "", "error: " ++ e.message ++ "\n\n" ++ helpText⟩
  | .ok invocation =>
    let output := execute read invocation
    match output.failure with
    | none => ⟨0, String.ofList output.lines, ""⟩
    | some f => ⟨1, String.ofList output.lines, f.report⟩

end Reductions.CommandLine
