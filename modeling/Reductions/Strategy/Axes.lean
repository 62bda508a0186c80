import Reductions.Config.Options
import Reductions.Strategy.Attribute
import Reductions.Strategy.Error

/-!
# Reduction axes

An operator gives its axes as a list of integers, where a negative one counts from the end, or as
`true` or an empty list for all of them. `resolveAxes` turns that into increasing axes without
repetition.
-/

namespace Reductions

def axisAttr : String := "axis"

def keepdimAttr : String := "keepdim"

structure ReduceAxes where
  axes : List UInt64
  keepdim : Bool
deriving DecidableEq, Repr

namespace ReduceAxes

/-- The rank as far as a signed word can count. -/
def signedRank (rank : Nat) : Nat :=
  min rank Int64.maxValue.toInt.toNat

/-- The axes as they are listed; none means all. -/
def listed? : AttrValue → Option (List Int)
  | .int64s values => some (values.map Int64.toInt)
  | .int32s values => some (values.map Int32.toInt)
  | .bool true => some []
  | _ => none

/-- A negative axis counts from the end. -/
def fromFront (rank : Nat) (axis : Int) : Int :=
  if axis < 0 then axis + signedRank rank else axis

/-- The listed axes counted from the front, or all axes if none is listed, in increasing order. -/
def normalise (rank : Nat) (listed : List Int) : List Int :=
  let axes := if listed.isEmpty then (List.range (signedRank rank)).map Int.ofNat
    else listed.map (fromFront rank)
  axes.mergeSort (· ≤ ·)

/-- Whether sorted axes are all within the input: there are not too many, none is negative and the
largest is within the bound. -/
def inRange (bound : AxisBound) (rank : Nat) (axes : List Int) : Bool :=
  axes.length ≤ rank && axes.all (0 ≤ ·) &&
    match axes.getLast? with
    | some last => bound.allows last.toNat rank
    | none => true

/-- The first value that stands twice in a row. -/
def repeated? : List Int → Option Int
  | a :: b :: rest => if a = b then some a else repeated? (b :: rest)
  | _ => none

def keepdim? (attrs : AttrStore) : Except StrategyFault Bool :=
  match attrs.get? keepdimAttr with
  | none => .ok false
  | some (.bool keep) => .ok keep
  | some other => .error (.invalidKeepdim other.typeName)

def resolve (attrs : AttrStore) (rank : Nat) (bound : AxisBound) :
    Except StrategyFault ReduceAxes :=
  match attrs.get? axisAttr with
  | none => .error (.missingAttribute axisAttr)
  | some value =>
    match listed? value with
    | none => .error (.invalidAttributeType axisAttr value.typeName)
    | some listed =>
      let axes := normalise rank listed
      if inRange bound rank axes then
        match repeated? axes with
        | some axis => .error (.duplicateAxis axis.toNat)
        | none =>
          match keepdim? attrs with
          | .error fault => .error fault
          | .ok keep => .ok ⟨axes.map fun axis => UInt64.ofNat axis.toNat, keep⟩
      else .error (.axisOutOfRange axes rank)

end ReduceAxes

def resolveAxes (op : String) (attrs : AttrStore) (rank : Nat) (bound : AxisBound) :
    Except StrategyError ReduceAxes :=
  (ReduceAxes.resolve attrs rank bound).mapError (.fault op)

end Reductions
