import Reductions.Number.Word
import Reductions.Reduction.Emitter
import Reductions.Text.Lines

/-!
# Command-line arguments

The arguments are first scanned from left to right into words, flags and values by a table of
options; what the program prints and exits on stops the scan at once. The pieces are then put
together into an `Invocation`.
-/

namespace Reductions.CommandLine

inductive UsageError where
  | unknownOption (text : String)
  | unexpectedWord (text : String)
  | unexpectedValue (option : String)
  | missingValue (option : String)
  | repeated (option : String)
  | invalidValue (option text : String)
  | conflict (first second : String)
  | missing (what : String)
deriving DecidableEq, Repr

def UsageError.message : UsageError → String
  | unknownOption text => "unknown option '" ++ text ++ "'"
  | unexpectedWord text => "unexpected argument '" ++ text ++ "'"
  | unexpectedValue option => "'--" ++ option ++ "' takes no value"
  | missingValue option => "'--" ++ option ++ "' needs a value"
  | repeated option => "'--" ++ option ++ "' cannot be given twice"
  | invalidValue option text => "invalid value '" ++ text ++ "' for '--" ++ option ++ "'"
  | conflict first second => "'--" ++ first ++ "' cannot be used with '--" ++ second ++ "'"
  | missing what => "missing " ++ what

/-- Why the arguments are not carried out. -/
inductive Halt where
  | usage (error : UsageError)
  | version
  | help
deriving DecidableEq, Repr

inductive OptionArity where
  | flag
  /-- One value, once. -/
  | single
  /-- Values with commas between them, any number of times. -/
  | list
  /-- Nothing, and the program stops. -/
  | stop (halt : Halt)
deriving DecidableEq, Repr

structure OptionSpec where
  long : String
  short : Option Char := none
  arity : OptionArity
  /-- Whether a value may look like an option. -/
  anyValue : Bool := false
  accepts : String → Bool := fun _ => true

inductive Item where
  | flag (option : String)
  | value (option text : String)
  | word (text : String)
deriving DecidableEq, Repr

namespace Item

def isOf (option : String) : Item → Bool
  | flag o => o == option
  | value o _ => o == option
  | word _ => false

end Item

/-! ## Scanning -/

def usage (error : UsageError) : Except Halt α :=
  .error (.usage error)

def pushFlag (items : List Item) (option : String) : Except Halt (List Item) :=
  if items.any (Item.isOf option) then usage (.repeated option)
  else .ok (items ++ [.flag option])

def pieces (text : String) : List String :=
  (Text.split ',' text.toList).map String.ofList

def pushValue (items : List Item) (spec : OptionSpec) (text : String) : Except Halt (List Item) :=
  let values := if spec.arity = .list then pieces text else [text]
  if spec.arity ≠ .list ∧ items.any (Item.isOf spec.long) then usage (.repeated spec.long)
  else
    match values.find? fun v => !spec.accepts v with
    | some v => usage (.invalidValue spec.long v)
    | none => .ok (items ++ values.map (.value spec.long))

def pushLetters (specs : List OptionSpec) : List Item → List Char → Except Halt (List Item)
  | items, [] => .ok items
  | items, c :: cs =>
    match specs.find? fun spec => spec.short == some c with
    | none => usage (.unknownOption (String.ofList ['-', c]))
    | some spec =>
      match spec.arity with
      | .stop halt => .error halt
      | _ =>
        match pushFlag items spec.long with
        | .error halt => .error halt
        | .ok items => pushLetters specs items cs

/-- Whether a text stands for options: it starts with a hyphen and is not the hyphen alone. -/
def looksLikeOption (text : String) : Bool :=
  match text.toList with
  | '-' :: _ :: _ => true
  | _ => false

/-- The name of a long option and the value behind its equals sign, if there is one. -/
def longParts (cs : List Char) : String × Option String :=
  let name := String.ofList (cs.takeWhile (· != '='))
  match cs.dropWhile (· != '=') with
  | _ :: value => (name, some (String.ofList value))
  | [] => (name, none)

/-- What a scan has found, with the arguments behind a subcommand if it met one. -/
structure Scan where
  items : List Item
  subcommand : Option (String × List String)

structure Level where
  specs : List OptionSpec
  /-- The words that open the next level. -/
  subcommands : List String := []
  /-- The most words that may stand here. -/
  wordLimit : Nat := 0

def words (items : List Item) : List String :=
  items.filterMap fun
    | .word text => some text
    | _ => none

def pushWord (level : Level) (items : List Item) (text : String) : Except Halt (List Item) :=
  if (words items).length < level.wordLimit then .ok (items ++ [.word text])
  else usage (.unexpectedWord text)

/-- Scans the arguments of a level. A subcommand ends the scan; behind `--` all arguments are words.
-/
def scan (level : Level) : List Item → Bool → List String → Except Halt Scan
  | items, _, [] => .ok ⟨items, none⟩
  | items, true, word :: rest =>
    match pushWord level items word with
    | .error halt => .error halt
    | .ok items => scan level items true rest
  | items, false, arg :: rest =>
    match arg.toList with
    | ['-', '-'] => scan level items true rest
    | '-' :: '-' :: long =>
      let (name, attached) := longParts long
      match level.specs.find? fun spec => spec.long == name with
      | none => usage (.unknownOption arg)
      | some spec =>
        match spec.arity, attached with
        | .stop _, some _ | .flag, some _ => usage (.unexpectedValue name)
        | .stop halt, none => .error halt
        | .flag, none =>
          match pushFlag items name with
          | .error halt => .error halt
          | .ok items => scan level items false rest
        | _, some text =>
          match pushValue items spec text with
          | .error halt => .error halt
          | .ok items => scan level items false rest
        | _, none =>
          match rest with
          | [] => usage (.missingValue name)
          | text :: rest =>
            if !spec.anyValue && looksLikeOption text then usage (.missingValue name)
            else
              match pushValue items spec text with
              | .error halt => .error halt
              | .ok items => scan level items false rest
    | '-' :: c :: cs =>
      match pushLetters level.specs items (c :: cs) with
      | .error halt => .error halt
      | .ok items => scan level items false rest
    | _ =>
      if level.subcommands.contains arg then .ok ⟨items, some (arg, rest)⟩
      else
        match pushWord level items arg with
        | .error halt => .error halt
        | .ok items => scan level items false rest

/-! ## What was given -/

def values (items : List Item) (option : String) : List String :=
  items.filterMap fun
    | .value o text => if o = option then some text else none
    | _ => none

def given (items : List Item) (option : String) : Bool :=
  items.any (Item.isOf option)

/-! ## Invocations -/

def elementNames : List (String × ElementType) :=
  [("bool", .bool), ("i8", .int8), ("i16", .int16), ("i32", .int32), ("i64", .int64),
    ("u8", .uint8), ("f16", .float16), ("bf16", .bfloat16), ("f32", .float32), ("f64", .float64)]

def element? (text : String) : Option ElementType :=
  elementNames.lookup text

def emitter? (text : String) : Option Emitter :=
  Emitter.all.find? fun e => e.name == text

def axis? (text : String) : Option Int64 :=
  (Numeral.toInt? 10 text.toList).bind Word.int64?

structure LowerRequest where
  operator : String
  shape : List String
  axes : List Int64
  allAxes : Bool
  keepdim : Bool
  element : ElementType
  target : Option String
  symbolic : Bool
  emitter : Emitter
deriving Repr

inductive Command where
  | list
  | lower (request : LowerRequest)
deriving Repr

structure Invocation where
  config : Option String
  verbose : Bool
  command : Command
deriving Repr

def globalSpecs : List OptionSpec :=
  [{ long := "config", arity := .single },
    { long := "verbose", short := some 'v', arity := .flag },
    { long := "help", short := some 'h', arity := .stop .help }]

def subcommandNames : List String :=
  ["list", "lower", "help"]

def topLevel : Level where
  specs := { long := "version", short := some 'V', arity := .stop .version } :: globalSpecs
  subcommands := subcommandNames

def listLevel : Level where
  specs := globalSpecs

def lowerLevel : Level where
  wordLimit := 1
  specs :=
  [{ long := "shape", arity := .list },
    { long := "axis", arity := .list, anyValue := true, accepts := fun s => (axis? s).isSome },
    { long := "all-axes", arity := .flag },
    { long := "keepdim", arity := .flag },
    { long := "dtype", arity := .single, accepts := fun s => (element? s).isSome },
    { long := "target", arity := .single },
    { long := "symbolic", arity := .flag },
    { long := "emitter", arity := .single, accepts := fun s => (emitter? s).isSome }]
    ++ globalSpecs

def lowerRequest (items : List Item) : Except Halt LowerRequest :=
  match words items with
  | [] => usage (.missing "operator")
  | operator :: _ =>
    if given items "axis" && given items "all-axes" then usage (.conflict "axis" "all-axes")
    else if !given items "shape" then usage (.missing "shape")
    else .ok
      { operator := operator
        shape := values items "shape"
        axes := (values items "axis").filterMap axis?
        allAxes := given items "all-axes"
        keepdim := given items "keepdim"
        element := ((values items "dtype").head?.bind element?).getD .float32
        target := (values items "target").head?
        symbolic := given items "symbolic"
        emitter := ((values items "emitter").head?.bind emitter?).getD .naive }

def invocation (outer inner : List Item) (command : Command) : Invocation where
  config := ((values inner "config").head?).or (values outer "config").head?
  verbose := given outer "verbose" || given inner "verbose"
  command := command

def subcommand (outer : List Item) (name : String) (args : List String) : Except Halt Invocation :=
  if name = "help" then
    match args.find? fun a => !subcommandNames.contains a with
    | some word => usage (.unexpectedWord word)
    | none => .error .help
  else if name = "list" then
    (scan listLevel [] false args).map fun found => invocation outer found.items .list
  else
    match scan lowerLevel [] false args with
    | .error halt => .error halt
    | .ok found =>
      (lowerRequest found.items).map fun request => invocation outer found.items (.lower request)

def parse (args : List String) : Except Halt Invocation :=
  match scan topLevel [] false args with
  | .error halt => .error halt
  | .ok ⟨_, none⟩ => usage (.missing "command")
  | .ok ⟨items, some (name, rest)⟩ => subcommand items name rest

end Reductions.CommandLine
