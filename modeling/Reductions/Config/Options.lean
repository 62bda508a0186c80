import Reductions.Number.Numeral

/-!
# Options

What a user can set: the target, and how strategies are built. `StrategyOptions.validate` says which
settings contradict each other.
-/

namespace Reductions

/-- How large the largest reduction axis may be. -/
inductive AxisBound where
  /-- Up to the rank, which reduces nothing. -/
  | inclusive
  /-- Below the rank. -/
  | exclusive
deriving DecidableEq, Repr, Inhabited

namespace AxisBound

def all : List AxisBound :=
  [inclusive, exclusive]

def name : AxisBound → String
  | inclusive => "inclusive"
  | exclusive => "exclusive"

def allows (bound : AxisBound) (axis rank : Nat) : Bool :=
  match bound with
  | inclusive => axis ≤ rank
  | exclusive => axis < rank

theorem mem_all (bound : AxisBound) : bound ∈ all := by
  cases bound <;> decide

end AxisBound

structure StrategyOptions where
  staticAxisBound : AxisBound := .inclusive
  minScheduleArgs : UInt64 := 2
  maxScheduleArgs : UInt64 := 8
  priority : Int32 := 1
  supportLevel : UInt32 := 4
deriving DecidableEq, Repr, Inhabited

structure Options where
  target : Option String := none
  strategy : StrategyOptions := {}
deriving DecidableEq, Repr, Inhabited

inductive OptionsConflict where
  | zeroMinimum
  | emptyRange (min max : UInt64)
deriving DecidableEq, Repr

def OptionsConflict.message : OptionsConflict → String
  | zeroMinimum => "min-schedule-args must be at least 1"
  | emptyRange min max =>
    "min-schedule-args (" ++ toString min.toNat ++ ") exceeds max-schedule-args ("
      ++ toString max.toNat ++ ")"

/-- A range of schedule arguments starts at one or later and holds a number. -/
def StrategyOptions.validate (o : StrategyOptions) : Except OptionsConflict Unit :=
  if o.minScheduleArgs = 0 then .error .zeroMinimum
  else if o.maxScheduleArgs < o.minScheduleArgs then
    .error (.emptyRange o.minScheduleArgs o.maxScheduleArgs)
  else .ok ()

theorem StrategyOptions.validate_eq_ok_iff (o : StrategyOptions) :
    o.validate = .ok () ↔ 1 ≤ o.minScheduleArgs ∧ o.minScheduleArgs ≤ o.maxScheduleArgs := by
  rw [validate]
  by_cases hzero : o.minScheduleArgs = 0
  · simp [hzero]
  · have hpos : 1 ≤ o.minScheduleArgs := by
      rw [← UInt64.toNat_inj] at hzero
      rw [UInt64.le_iff_toNat_le]
      exact Nat.pos_of_ne_zero hzero
    rw [if_neg hzero]
    by_cases hrange : o.maxScheduleArgs < o.minScheduleArgs
    · simp [hrange, UInt64.not_le.2 hrange]
    · simp [hrange, hpos, UInt64.not_lt.1 hrange]

end Reductions
