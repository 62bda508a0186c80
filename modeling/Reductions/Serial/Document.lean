import Reductions.Json.Basic
import Reductions.Number.Word

/-!
# How values are laid out in documents

The layouts that all serialised types share. A record is an object with one member for each field;
when it is read, other members are ignored, and an array of the fields in their order will do as
well. A choice between cases is an object with one member, named for the case; a case without
content is just its name.
-/

namespace Reductions.Serial

/-! ## Records -/

/-- The given number of values, with nothing for those that are missing. -/
def padded : Nat → List Json → List (Option Json)
  | 0, _ => []
  | n + 1, [] => none :: padded n []
  | n + 1, j :: js => some j :: padded n js

def fields? (names : List String) : Json → Option (List (Option Json))
  | .object members => some (names.map (Json.member? members))
  | .array elements =>
    if elements.length ≤ names.length then some (padded names.length elements) else none
  | _ => none

def required (decode : Json → Option α) (field : Option Json) : Option α :=
  field.bind decode

def defaulted (decode : Json → Option α) (default : α) : Option Json → Option α
  | none => some default
  | some j => decode j

/-! ## Cases -/

/-- The name of a case and its content, if it has any. -/
def case? : Json → Option (String × Option Json)
  | .string name => some (name, none)
  | .object [(name, content)] => some (name, some content)
  | _ => none

def isVoid : Option Json → Bool
  | none | some .null => true
  | _ => false

/-- Reads a type whose cases all have no content. -/
def unit? (all : List α) (label : α → String) (j : Json) : Option α :=
  match case? j with
  | some (name, content) => if isVoid content then all.find? fun a => label a == name else none
  | none => none

def tagged (name : String) (content : Json) : Json :=
  .object [(name, content)]

/-! ## Numbers and lists -/

def uint64? (j : Json) : Option UInt64 :=
  j.asInt?.bind Word.uint64?

def int64? (j : Json) : Option Int64 :=
  j.asInt?.bind Word.int64?

def uint32? (j : Json) : Option UInt32 :=
  j.asInt?.bind Word.uint32?

def int32? (j : Json) : Option Int32 :=
  j.asInt?.bind Word.int32?

/-- A double may be written as a whole number. -/
def float? : Json → Option Binary64
  | .float x => some x
  | .int n => some (Binary64.ofInt n)
  | _ => none

def ofFloat (x : Binary64) : Json :=
  if x.isFinite then .float x else .null

def list? (decode : Json → Option α) (j : Json) : Option (List α) :=
  j.asArray?.bind fun elements => elements.mapM decode

def ofList (encode : α → Json) (as : List α) : Json :=
  .array (as.map encode)

/-! ## Reading back -/

theorem uint64?_int (n : Int) : uint64? (.int n) = Word.uint64? n := rfl

theorem uint64?_ofNat (w : UInt64) : uint64? (.int w.toNat) = some w := by
  rw [uint64?_int, Word.uint64?_toNat]

theorem int64?_int (n : Int) : int64? (.int n) = Word.int64? n := rfl

theorem int64?_ofInt (w : Int64) : int64? (.int w.toInt) = some w := by
  rw [int64?_int, Word.int64?_toInt]

theorem uint32?_int (n : Int) : uint32? (.int n) = Word.uint32? n := rfl

theorem uint32?_ofNat (w : UInt32) : uint32? (.int w.toNat) = some w := by
  rw [uint32?_int, Word.uint32?_toNat]

theorem int32?_int (n : Int) : int32? (.int n) = Word.int32? n := rfl

theorem int32?_ofInt (w : Int32) : int32? (.int w.toInt) = some w := by
  rw [int32?_int, Word.int32?_toInt]

theorem list?_ofList {encode : α → Json} {decode : Json → Option α} (as : List α)
    (h : ∀ a ∈ as, decode (encode a) = some a) : list? decode (ofList encode as) = some as := by
  simp only [list?, ofList, Json.asArray?, Option.bind_some]
  induction as with
  | nil => rfl
  | cons a as ih =>
    have ha := h a List.mem_cons_self
    have has := ih fun x hx => h x (List.mem_cons_of_mem a hx)
    simp [ha, has]

end Reductions.Serial
