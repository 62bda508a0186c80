/-!
# Element types

The types that the elements of a tensor can have.
-/

namespace Reductions

inductive ElementType where
  | bool
  | int8
  | int16
  | int32
  | int64
  | uint8
  | float16
  | bfloat16
  | float32
  | float64
deriving DecidableEq, Repr, Inhabited

namespace ElementType

def all : List ElementType :=
  [bool, int8, int16, int32, int64, uint8, float16, bfloat16, float32, float64]

def isBool : ElementType → Bool
  | bool => true
  | _ => false

def isFloat : ElementType → Bool
  | float16 | bfloat16 | float32 | float64 => true
  | _ => false

def name : ElementType → String
  | bool => "bool"
  | int8 => "int8"
  | int16 => "int16"
  | int32 => "int32"
  | int64 => "int64"
  | uint8 => "uint8"
  | float16 => "float16"
  | bfloat16 => "bfloat16"
  | float32 => "float32"
  | float64 => "float64"

def label : ElementType → String
  | bool => "Bool"
  | int8 => "Int8"
  | int16 => "Int16"
  | int32 => "Int32"
  | int64 => "Int64"
  | uint8 => "UInt8"
  | float16 => "Float16"
  | bfloat16 => "BFloat16"
  | float32 => "Float32"
  | float64 => "Float64"

theorem mem_all (t : ElementType) : t ∈ all := by
  cases t <;> decide

end ElementType

end Reductions
