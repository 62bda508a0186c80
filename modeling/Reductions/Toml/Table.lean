import Reductions.Toml.Basic

/-!
# Building the tables of a document

A document defines its tables piece by piece: by headers, by dotted keys, and by the way as parents
of tables further down. Which pieces may follow each other depends on how a table came about, so
that is remembered until the document is complete.
-/

namespace Reductions.Toml

/-- How a table came about. -/
inductive Origin where
  /-- By a header of its own. -/
  | header
  | parent
  /-- By a dotted key. -/
  | dotted
deriving DecidableEq, Repr

/-- What a name in an unfinished document stands for. -/
inductive Node where
  | value (value : Toml)
  | table (origin : Origin) (entries : List (String × Node))
  /-- An array of tables by headers; the last table can be added to. -/
  | tables (done : List (List (String × Node))) (last : List (String × Node))

abbrev Entries := List (String × Node)

namespace Entries

def set (entries : Entries) (name : String) (node : Node) : Entries :=
  match entries with
  | [] => [(name, node)]
  | (key, old) :: rest =>
    if key = name then (key, node) :: rest else (key, old) :: set rest name node

theorem lookup_set (entries : Entries) (name key : String) (node : Node) :
    (set entries name node).lookup key = if key = name then some node else entries.lookup key := by
  induction entries with
  | nil =>
    by_cases h : key = name
    · simp [set, h]
    · have ne : (key == name) = false := beq_eq_false_iff_ne.2 h
      simp [set, List.lookup_cons, h, ne]
  | cons entry rest ih =>
    obtain ⟨k, old⟩ := entry
    unfold set
    by_cases hk : k = name
    · subst hk
      by_cases h : key = k
      · simp [h]
      · have ne : (key == k) = false := beq_eq_false_iff_ne.2 h
        simp [List.lookup_cons, h, ne]
    · rw [if_neg hk, List.lookup_cons, List.lookup_cons, ih]
      by_cases h : key = k
      · subst h
        simp [hk]
      · have ne : (key == k) = false := beq_eq_false_iff_ne.2 h
        simp [ne]

/-- Changes the table at a path of names. Tables that are missing on the way are made with the given
origin. A dotted key does not go through a table that has a header, and nothing goes through a
value. -/
def descend (made : Origin) (path : List String) (change : Origin → Entries → Option Entries)
    (origin : Origin) (entries : Entries) : Option Entries :=
  match path with
  | [] => change origin entries
  | name :: path =>
    match entries.lookup name with
    | none =>
      (descend made path change made []).map fun inner => set entries name (.table made inner)
    | some (.value _) => none
    | some (.tables done last) =>
      (descend made path change .header last).map fun last => set entries name (.tables done last)
    | some (.table origin inner) =>
      if made = .dotted ∧ origin = .header then none
      else (descend made path change origin inner).map fun inner =>
        set entries name (.table origin inner)

/-- Adds a value under a new name. With a dotted key the table must come from dotted keys alone,
with a plain key it must not. -/
def addValue (isDotted : Bool) (name : String) (value : Toml) (origin : Origin)
    (entries : Entries) : Option Entries :=
  if (origin == .dotted) == isDotted && (entries.lookup name).isNone then
    some (set entries name (.value value))
  else none

def insert (entries : Entries) (header key : List String) (value : Toml) : Option Entries :=
  match key.getLast? with
  | none => none
  | some name =>
    let path := key.dropLast
    descend .parent header
      (fun origin inner =>
        descend .dotted path (addValue (!path.isEmpty) name value) origin inner)
      .header entries

/-- Opens the table of a header. It is new, or the parent of a table that came before it. -/
def openTable (name : String) (_ : Origin) (entries : Entries) : Option Entries :=
  match entries.lookup name with
  | none => some (set entries name (.table .header []))
  | some (.table .parent inner) => some (set entries name (.table .header inner))
  | _ => none

def openElement (name : String) (_ : Origin) (entries : Entries) : Option Entries :=
  match entries.lookup name with
  | none => some (set entries name (.tables [] []))
  | some (.tables done last) => some (set entries name (.tables (done ++ [last]) []))
  | _ => none

def follow (entries : Entries) (isElement : Bool) (header : List String) : Option Entries :=
  match header.getLast? with
  | none => none
  | some name =>
    descend .parent header.dropLast (if isElement then openElement name else openTable name) .header
      entries

end Entries

mutual

def Node.finish : Node → Toml
  | .value v => v
  | .table _ entries => .table (finishEntries entries)
  | .tables done last => .array (finishTables done ++ [.table (finishEntries last)])

def finishEntries : List (String × Node) → List (String × Toml)
  | [] => []
  | (name, node) :: rest => (name, node.finish) :: finishEntries rest

def finishTables : List (List (String × Node)) → List Toml
  | [] => []
  | entries :: rest => .table (finishEntries entries) :: finishTables rest

end

end Reductions.Toml
