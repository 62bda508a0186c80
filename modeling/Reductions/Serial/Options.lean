import Reductions.Registry
import Reductions.Serial.Document

/-!
# Settings in documents

Architectures, fusion patterns and options. A setting that a document leaves out has its default.
-/

namespace Reductions

def Arch.toJson (arch : Arch) : Json :=
  .string arch.label

def Arch.ofJson? : Json → Option Arch :=
  Serial.unit? Arch.all Arch.label

def Target.toJson (t : Target) : Json :=
  .object [("arch", t.arch.toJson)]

def Target.ofJson? (j : Json) : Option Target :=
  match Serial.fields? ["arch"] j with
  | some [arch] => (Serial.required Arch.ofJson? arch).map Target.mk
  | _ => none

def FusionPattern.toJson (p : FusionPattern) : Json :=
  .string p.name

def FusionPattern.ofJson? : Json → Option FusionPattern :=
  Serial.unit? FusionPattern.all FusionPattern.name

def AxisBound.toJson (b : AxisBound) : Json :=
  .string b.name

def AxisBound.ofJson? : Json → Option AxisBound :=
  Serial.unit? AxisBound.all AxisBound.name

namespace StrategyOptions

def fieldNames : List String :=
  ["static-axis-bound", "min-schedule-args", "max-schedule-args", "priority", "support-level"]

def toJson (o : StrategyOptions) : Json :=
  .object [("static-axis-bound", o.staticAxisBound.toJson),
    ("min-schedule-args", .int o.minScheduleArgs.toNat),
    ("max-schedule-args", .int o.maxScheduleArgs.toNat),
    ("priority", .int o.priority.toInt),
    ("support-level", .int o.supportLevel.toNat)]

def ofJson? (j : Json) : Option StrategyOptions :=
  let default : StrategyOptions := {}
  match Serial.fields? fieldNames j with
  | some [bound, min, max, priority, level] => do
    let bound ← Serial.defaulted AxisBound.ofJson? default.staticAxisBound bound
    let min ← Serial.defaulted Serial.uint64? default.minScheduleArgs min
    let max ← Serial.defaulted Serial.uint64? default.maxScheduleArgs max
    let priority ← Serial.defaulted Serial.int32? default.priority priority
    let level ← Serial.defaulted Serial.uint32? default.supportLevel level
    some ⟨bound, min, max, priority, level⟩
  | _ => none

end StrategyOptions

namespace Options

/-- A target that is not set is `null`. -/
def targetToJson : Option String → Json
  | none => .null
  | some name => .string name

def targetOfJson? : Json → Option (Option String)
  | .null => some none
  | .string name => some (some name)
  | _ => none

def toJson (o : Options) : Json :=
  .object [("target", targetToJson o.target), ("strategy", o.strategy.toJson)]

def ofJson? (j : Json) : Option Options :=
  match Serial.fields? ["target", "strategy"] j with
  | some [target, strategy] => do
    let target ← Serial.defaulted targetOfJson? none target
    let strategy ← Serial.defaulted StrategyOptions.ofJson? {} strategy
    some ⟨target, strategy⟩
  | _ => none

end Options

end Reductions
