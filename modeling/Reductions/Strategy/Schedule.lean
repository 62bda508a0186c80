import Reductions.Config.Options
import Reductions.Expr.Simplify
import Reductions.Strategy.Argument
import Reductions.Strategy.Error

/-!
# Schedule functions

The schedule function of a reduction takes statement trees with tensors among them, simplifies every
tree and fuses them into one. Tensors count towards the number of arguments and are otherwise
ignored.
-/

namespace Reductions

namespace Schedule

/-- The arguments, or what a single nested pack holds. -/
def entries : Pack → Pack
  | [.pack inner] => inner
  | args => args

def acceptsArity (options : StrategyOptions) (n : Nat) : Bool :=
  options.minScheduleArgs.toNat ≤ n && n ≤ options.maxScheduleArgs.toNat

def trees (entries : Pack) : List Expr :=
  (entries.filterMap Argument.asStatement?).map Expr.simplify

def mergeTrees (trees : List Expr) : Except ProgramError Expr :=
  match (Program.mk trees).merge with
  | (_, .error e) => .error e
  | (merged, .ok ()) =>
    match merged.roots with
    | [] => .error .empty
    | root :: _ => .ok root

end Schedule

def buildSchedule (op : String) (arch : Arch) (options : StrategyOptions) (args : Pack) :
    Except StrategyError Pack :=
  let entries := Schedule.entries args
  let trees := Schedule.trees entries
  if args.isEmpty then .error (.fault op (.emptyArguments .schedule))
  else if !Schedule.acceptsArity options entries.length then
    .error (.fault op (.arityMismatch .schedule options.minScheduleArgs.toNat
      options.maxScheduleArgs.toNat entries.length))
  else if trees.isEmpty then .error (.fault op .noStatements)
  else
    match Schedule.mergeTrees trees with
    | .error e => .error (.program e)
    | .ok root =>
      if arch = .unknown then .error (.fault op (.unsupportedArchitecture arch))
      else .ok [.expr root]

end Reductions
