import Reductions.Number.Binary64

/-!
# JSON values

A JSON document as a tree. Whole numbers that a 64-bit word holds are kept apart from all other
numbers, which are doubles. The members of an object have an order, which no look-up depends on.
-/

namespace Reductions

inductive Json where
  | null
  | bool (value : Bool)
  /-- A whole number that a 64-bit word, signed or not, can hold. -/
  | int (value : Int)
  | float (value : Binary64)
  | string (value : String)
  | array (elements : List Json)
  | object (members : List (String × Json))
deriving Inhabited

namespace Json

mutual

def depth : Json → Nat
  | array elements => depthAll elements + 1
  | object members => depthMembers members + 1
  | _ => 1

def depthAll : List Json → Nat
  | [] => 0
  | j :: js => max j.depth (depthAll js)

def depthMembers : List (String × Json) → Nat
  | [] => 0
  | (_, j) :: rest => max j.depth (depthMembers rest)

end

def member? (members : List (String × Json)) (name : String) : Option Json :=
  members.lookup name

def asInt? : Json → Option Int
  | int n => some n
  | _ => none

def asBool? : Json → Option Bool
  | bool b => some b
  | _ => none

def asString? : Json → Option String
  | string s => some s
  | _ => none

def asArray? : Json → Option (List Json)
  | array elements => some elements
  | _ => none

end Json

end Reductions
