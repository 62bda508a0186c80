import Reductions.Number.Binary64

/-!
# TOML values
-/

namespace Reductions

inductive Toml where
  | string (value : String)
  | int (value : Int64)
  | float (value : Binary64)
  | bool (value : Bool)
  /-- A date, a time or both, as written. -/
  | datetime (text : String)
  | array (elements : List Toml)
  | table (entries : List (String × Toml))
deriving Inhabited

end Reductions
