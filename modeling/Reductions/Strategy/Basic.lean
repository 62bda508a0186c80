import Reductions.Strategy.Argument
import Reductions.Strategy.Error
import Reductions.Text.Quoted

/-!
# Strategies

A strategy holds the implementations of one operator. The one to use is the one with the highest
priority, the earliest of those if there are several.
-/

namespace Reductions

abbrev PackFunction := Pack → Except StrategyError Pack

structure Implementation where
  name : String
  priority : Int32
  compute : PackFunction
  schedule : Option PackFunction

namespace Implementation

def hasSchedule (i : Implementation) : Bool :=
  i.schedule.isSome

def describe (i : Implementation) : String :=
  "OpImpl \x7b name: " ++ Text.quoted i.name ++ ", priority: "
    ++ String.ofList (Numeral.ofInt i.priority.toInt) ++ ", has_schedule: "
    ++ toString i.hasSchedule ++ ", .. \x7d"

end Implementation

/-- The implementations in the order in which they were added. -/
structure Strategy where
  implementations : List Implementation

namespace Strategy

def empty : Strategy := ⟨[]⟩

def add (s : Strategy) (i : Implementation) : Strategy :=
  ⟨s.implementations ++ [i]⟩

/-- Of two candidates the later one, unless the earlier one has a higher priority. -/
def laterHighest (earlier later : Implementation) : Implementation :=
  if later.priority < earlier.priority then earlier else later

def lastHighest? : List Implementation → Option Implementation
  | [] => none
  | first :: rest => some (rest.foldl laterHighest first)

/-- The implementation to use. The search goes from the end, so that the last one it finds with the
highest priority is the earliest. -/
def best? (s : Strategy) : Option Implementation :=
  lastHighest? s.implementations.reverse

end Strategy

end Reductions
