import Reductions.Number.Numeral
import Reductions.Text.Blank
import Reductions.Text.Lines

/-!
# Loop marks

A loop carries a set of marks, one bit each. The lowest bit says that the loop runs over a reduced
axis; the other bits have no meaning here and are kept. A set is written as the names of its marks,
with what has no name in hexadecimal at the end.
-/

namespace Reductions

structure LoopMarks where
  bits : UInt32
deriving DecidableEq, Repr, Inhabited

namespace LoopMarks

def empty : LoopMarks := ⟨0⟩

/-- The loop runs over a reduced axis. -/
def reduction : LoopMarks := ⟨1⟩

def union (a b : LoopMarks) : LoopMarks :=
  ⟨a.bits ||| b.bits⟩

def isReduction (m : LoopMarks) : Bool :=
  m.bits &&& reduction.bits == reduction.bits

def reductionName : List Char :=
  "REDUCTION".toList

def unnamed (m : LoopMarks) : UInt32 :=
  m.bits &&& ~~~reduction.bits

def hexMark : List Char :=
  ['0', 'x']

def names (m : LoopMarks) : List (List Char) :=
  (if m.isReduction then [reductionName] else [])
    ++ (if m.unnamed = 0 then [] else [hexMark ++ Numeral.hexOfNat m.unnamed.toNat])

/-- The names with bars between them; nothing for the empty set. -/
def write (m : LoopMarks) : List Char :=
  Text.join [' ', '|', ' '] m.names

def ofName? (name : List Char) : Option LoopMarks :=
  match name with
  | '0' :: 'x' :: digits =>
    match Numeral.toUnsigned? 16 digits with
    | some n => if n < UInt32.size then some ⟨UInt32.ofNat n⟩ else none
    | none => none
  | name => if name = reductionName then some reduction else none

/-- Reads names between bars. Blanks around a name do not count, and a text of blanks is the empty
set. -/
def ofText? (text : List Char) : Option LoopMarks :=
  if (Text.trim text).isEmpty then some empty
  else
    (Text.split '|' text).foldlM
      (fun marks name => (ofName? (Text.trim name)).map marks.union) empty

end LoopMarks

end Reductions
