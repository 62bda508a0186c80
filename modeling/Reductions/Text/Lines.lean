/-!
# Putting texts together

Splitting a text at a mark and joining pieces with one. Both work on characters, so that the pieces
can be taken apart again by recursion on the text.
-/

namespace Reductions.Text

/-- The pieces with the mark between every two of them. -/
def join (mark : List Char) : List (List Char) → List Char
  | [] => []
  | [piece] => piece
  | piece :: rest => piece ++ mark ++ join mark rest

def split (mark : Char) : List Char → List (List Char)
  | [] => [[]]
  | c :: cs =>
    if c = mark then [] :: split mark cs
    else
      match split mark cs with
      | [] => [[c]]
      | piece :: rest => (c :: piece) :: rest

/-- The pieces one after another, behind an opening and before a closing character. -/
def bracketed (pieces : List (List Char)) : List Char :=
  '[' :: join [',', ' '] pieces ++ [']']

/-- Blanks up to a width. A longer text stays as it is. -/
def padRight (width : Nat) (cs : List Char) : List Char :=
  cs ++ List.replicate (width - cs.length) ' '

theorem split_ne_nil (mark : Char) (cs : List Char) : split mark cs ≠ [] := by
  cases cs with
  | nil => simp [split]
  | cons c cs =>
    unfold split
    split
    · simp
    · split <;> simp

theorem join_split (mark : Char) (cs : List Char) : join [mark] (split mark cs) = cs := by
  induction cs with
  | nil => rfl
  | cons c cs ih =>
    unfold split
    split
    · next h =>
      subst h
      cases hs : split c cs with
      | nil => exact absurd hs (split_ne_nil c cs)
      | cons piece rest =>
        rw [join, ← hs, ih]
        · rfl
        · simp
    · next h =>
      cases hs : split mark cs with
      | nil => exact absurd hs (split_ne_nil mark cs)
      | cons piece rest =>
        rw [hs] at ih
        cases rest with
        | nil => simpa [join] using ih
        | cons next rest => simpa [join] using ih

end Reductions.Text
