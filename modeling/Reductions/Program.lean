import Reductions.Expr.Printer

/-!
# Programs

A program is a list of root trees in the order in which they run. Merging fuses the roots into one.
-/

namespace Reductions

structure Program where
  roots : List Expr

inductive ProgramError where
  | empty
deriving DecidableEq, Repr

def ProgramError.message : ProgramError → String
  | empty => "module has no expressions"

namespace Program

def push (p : Program) (root : Expr) : Program :=
  ⟨p.roots ++ [root]⟩

/-- One root that runs the statements of all roots in order. A program that has one root keeps it.
-/
def merge (p : Program) : Program × Except ProgramError Unit :=
  match p.roots with
  | [] => (p, .error .empty)
  | [_] => (p, .ok ())
  | roots => (⟨[.block (roots.flatMap Expr.statements)]⟩, .ok ())

/-- A merge that fails leaves the program as it is. -/
theorem merge_of_error {p : Program} {e : ProgramError} (h : p.merge.2 = .error e) :
    p.merge.1 = p := by
  unfold merge at h ⊢
  split at h
  · rfl
  · cases h
  · cases h

/-- The dumps of the roots from number `i` on, each under a heading of its own. -/
def writeFrom (i : Nat) : List Expr → List (List Char)
  | [] => []
  | root :: rest =>
    ("// root ".toList ++ Numeral.ofNat i ++ '\n' :: root.write) :: writeFrom (i + 1) rest

def text (p : Program) : String :=
  String.ofList (Text.join ['\n'] (writeFrom 0 p.roots))

end Program

end Reductions
