import Reductions.Program
import Reductions.Target

/-!
# Strategy errors

What can go wrong when a strategy is built or one of its functions runs. A fault is always met while
some operator is handled, and its message starts with that operator's name; only a failed merge of
roots names none.
-/

namespace Reductions

inductive Stage where
  | compute
  | schedule
deriving DecidableEq, Repr

def Stage.name : Stage → String
  | compute => "compute"
  | schedule => "schedule"

inductive StrategyFault where
  | missingAttribute (attr : String)
  | invalidAttributeType (attr found : String)
  | invalidKeepdim (found : String)
  /-- The axes are normalised and sorted. -/
  | axisOutOfRange (axes : List Int) (rank : Nat)
  | duplicateAxis (axis : Nat)
  | missingInput
  | emptyArguments (stage : Stage)
  | notAPack (stage : Stage)
  | arityMismatch (stage : Stage) (min max got : Nat)
  | notATensor (stage : Stage) (index : Nat)
  | notAString (stage : Stage) (index : Nat)
  | typeMismatch (tensor : String) (expected found : ElementType)
  | noStatements
  | unsupportedArchitecture (arch : Arch)
deriving DecidableEq, Repr

namespace StrategyFault

/-- What the message says after the operator's name. -/
def message : StrategyFault → String
  | missingAttribute attr => "missing required attribute `" ++ attr ++ "`"
  | invalidAttributeType attr found =>
    "attribute `" ++ attr ++ "` has unsupported type " ++ found
  | invalidKeepdim found => "attribute `keepdim` must be a boolean, found " ++ found
  | axisOutOfRange axes rank =>
    "reduce axes " ++ String.ofList (Text.bracketed (axes.map Numeral.ofInt))
      ++ " are out of range for input of rank " ++ toString rank
  | duplicateAxis axis =>
    "the reduce axes should be unique, axis " ++ toString axis ++ " repeats"
  | missingInput => "expected an input tensor"
  | emptyArguments stage => "the input arguments of " ++ stage.name ++ " are empty"
  | notAPack stage => "the first argument of " ++ stage.name ++ " must be an argument pack"
  | arityMismatch stage min max got =>
    stage.name ++ " expects between " ++ toString min ++ " and " ++ toString max
      ++ " arguments, got " ++ toString got
  | notATensor stage index => stage.name ++ " argument " ++ toString index ++ " is not a tensor"
  | notAString stage index => stage.name ++ " argument " ++ toString index ++ " is not a string"
  | typeMismatch tensor expected found =>
    "input `" ++ tensor ++ "` must have element type " ++ expected.name ++ ", found " ++ found.name
  | noStatements => "schedule received no statement trees"
  | unsupportedArchitecture arch =>
    "scheduling is not implemented for architecture " ++ arch.name

end StrategyFault

/-- There are fifteen kinds of error. Each of the fourteen kinds of fault makes one: its data are the
operator that was handled and the data of the fault, and its text is the name of the operator, a
colon and the text of the fault. Only a failed merge has no operator. -/
inductive StrategyError where
  | fault (op : String) (cause : StrategyFault)
  /-- Roots could not be merged. -/
  | program (cause : ProgramError)
deriving DecidableEq, Repr

namespace StrategyError

def op? : StrategyError → Option String
  | fault op _ => some op
  | program _ => none

def message : StrategyError → String
  | fault op cause => op ++ ": " ++ cause.message
  | program cause => cause.message

end StrategyError

end Reductions
