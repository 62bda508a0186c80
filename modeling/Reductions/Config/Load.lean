import Reductions.Config.Files
import Reductions.Config.Options
import Reductions.Toml.Reader

/-!
# Loading options

Options come from a TOML document. A setting that is left out has its default, a name that is not a
setting is ignored, and a value of the wrong kind or out of its range is an error.
-/

namespace Reductions

inductive ConfigError where
  | notFound (path : String)
  | invalid (conflict : OptionsConflict)
  | malformed
  /-- A setting has a value that it cannot have. -/
  | unsuitable
  | unreadable (cause : ReadError)
deriving DecidableEq, Repr

namespace ConfigError

def message : ConfigError → String
  | notFound path => "configuration file not found: " ++ path
  | invalid conflict => "invalid configuration: " ++ conflict.message
  | malformed => "TOML error: the text is not a TOML document"
  | unsuitable => "TOML error: a setting has a value of the wrong kind or out of range"
  | unreadable cause => "IO error: " ++ cause.message

/-- What lies behind an error that only passes on another one. -/
def source? : ConfigError → Option String
  | notFound _ | invalid _ => none
  | malformed => some "the text is not a TOML document"
  | unsuitable => some "a setting has a value of the wrong kind or out of range"
  | unreadable cause => some cause.message

end ConfigError

namespace Toml

def asInt? : Toml → Option Int
  | int n => some n.toInt
  | _ => none

def asString? : Toml → Option String
  | string s => some s
  | _ => none

/-- The bound that a name stands for; a table with that name and nothing in it will do as well. -/
def axisBound? : Toml → Option AxisBound
  | string name => AxisBound.all.find? fun b => b.name == name
  | table [(name, table [])] | table [(name, array [])] =>
    AxisBound.all.find? fun b => b.name == name
  | _ => none

def asUInt64? (value : Toml) : Option UInt64 :=
  value.asInt?.bind Word.uint64?

def asInt32? (value : Toml) : Option Int32 :=
  value.asInt?.bind Word.int32?

def asUInt32? (value : Toml) : Option UInt32 :=
  value.asInt?.bind Word.uint32?

def setting (read : Toml → Option α) (default : α) : Option Toml → Option α
  | none => some default
  | some value => read value

/-- Reads the strategy settings from one value each, in their order. -/
def strategyFrom? (value? : Nat → String → Option Toml) : Option StrategyOptions := do
  let default : StrategyOptions := {}
  let bound ← setting axisBound? default.staticAxisBound (value? 0 "static-axis-bound")
  let min ← setting asUInt64? default.minScheduleArgs (value? 1 "min-schedule-args")
  let max ← setting asUInt64? default.maxScheduleArgs (value? 2 "max-schedule-args")
  let priority ← setting asInt32? default.priority (value? 3 "priority")
  let level ← setting asUInt32? default.supportLevel (value? 4 "support-level")
  some ⟨bound, min, max, priority, level⟩

/-- The strategy settings by their names, or in their order in an array. A date counts as a table
without settings. -/
def strategy? : Toml → Option StrategyOptions
  | table entries => strategyFrom? fun _ name => entries.lookup name
  | array elements => strategyFrom? fun i _ => elements[i]?
  | datetime _ => some {}
  | _ => none

def options? (entries : List (String × Toml)) : Option Options := do
  let target ← setting (fun v => v.asString?.map some) none (entries.lookup "target")
  let strategy ← setting strategy? {} (entries.lookup "strategy")
  some ⟨target, strategy⟩

end Toml

namespace Options

def parse (text : String) : Except ConfigError Options :=
  match Toml.parse text with
  | none => .error .malformed
  | some entries =>
    match Toml.options? entries with
    | none => .error .unsuitable
    | some options =>
      match options.strategy.validate with
      | .error conflict => .error (.invalid conflict)
      | .ok () => .ok options

def load (read : FileReader) (path : String) : Except ConfigError Options :=
  match read path with
  | .error .notFound => .error (.notFound path)
  | .error cause => .error (.unreadable cause)
  | .ok text => parse text

end Options

end Reductions
