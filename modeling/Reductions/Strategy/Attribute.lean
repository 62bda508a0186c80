import Reductions.Number.Binary64

/-!
# Operator attributes

The attributes of one operator: names with loosely typed values. A name has at most one value, and
setting it again replaces the value.
-/

namespace Reductions

inductive AttrValue where
  | bool (value : Bool)
  | int (value : Int64)
  | float (value : Binary64)
  | string (value : String)
  | int32s (values : List Int32)
  | int64s (values : List Int64)
deriving DecidableEq, Repr

namespace AttrValue

def typeName : AttrValue → String
  | bool _ => "bool"
  | int _ => "int"
  | float _ => "float"
  | string _ => "string"
  | int32s _ => "i32 list"
  | int64s _ => "i64 list"

/-- Whether two values agree, floating-point numbers in the sense of arithmetic. -/
def same : AttrValue → AttrValue → Bool
  | float x, float y => x.same y
  | a, b => a == b

end AttrValue

/-- Attributes in the order in which their values were set. -/
structure AttrStore where
  entries : List (String × AttrValue)
  names_nodup : (entries.map Prod.fst).Nodup

namespace AttrStore

def empty : AttrStore := ⟨[], List.nodup_nil⟩

def others (s : AttrStore) (name : String) : List (String × AttrValue) :=
  s.entries.filter fun entry => entry.1 != name

def insert (s : AttrStore) (name : String) (value : AttrValue) : AttrStore where
  entries := s.others name ++ [(name, value)]
  names_nodup := by
    have kept : ((s.others name).map Prod.fst).Nodup :=
      s.names_nodup.sublist (List.filter_sublist.map _)
    have fresh : name ∉ (s.others name).map Prod.fst := by
      simp [others]
    simp only [List.map_append, List.map_cons, List.map_nil]
    refine List.nodup_append.2 ⟨kept, by simp, ?_⟩
    intro a ha b hb h
    simp only [List.mem_singleton] at hb
    have eq : a = name := h.trans hb
    exact fresh (eq ▸ ha)

def ofList (entries : List (String × AttrValue)) : AttrStore :=
  entries.foldl (fun s entry => s.insert entry.1 entry.2) empty

def get? (s : AttrStore) (name : String) : Option AttrValue :=
  s.entries.lookup name

def contains (s : AttrStore) (name : String) : Bool :=
  (s.get? name).isSome

def size (s : AttrStore) : Nat :=
  s.entries.length

/-- Whether two stores give the same values to the same names. -/
def same (s t : AttrStore) : Bool :=
  s.size == t.size && s.entries.all fun (name, value) =>
    match t.get? name with
    | some other => value.same other
    | none => false

private theorem lookup_filter_ne (entries : List (String × AttrValue)) {name key : String}
    (h : key ≠ name) :
    (entries.filter fun entry => entry.1 != name).lookup key = entries.lookup key := by
  induction entries with
  | nil => rfl
  | cons entry rest ih =>
    obtain ⟨k, v⟩ := entry
    by_cases hk : k = name
    · have hne : (key == k) = false := beq_eq_false_iff_ne.2 fun eq => h (eq.trans hk)
      rw [List.filter_cons_of_neg (by simp [hk]), ih]
      simp only [List.lookup_cons, hne]
    · rw [List.filter_cons_of_pos (by simpa using hk)]
      simp only [List.lookup_cons, ih]

/-- Setting a name changes the value of that name and of no other. -/
theorem get?_insert (s : AttrStore) (name key : String) (value : AttrValue) :
    (s.insert name value).get? key = if key = name then some value else s.get? key := by
  simp only [get?, insert, List.lookup_append]
  by_cases h : key = name
  · subst h
    have none_left : (s.others key).lookup key = none := by
      rw [List.lookup_eq_none_iff]
      simp only [others, List.mem_filter]
      intro entry hentry
      have := hentry.2
      simp only [bne_iff_ne, ne_eq] at this
      exact bne_iff_ne.2 fun eq => this eq.symm
    simp [none_left]
  · simp only [others, lookup_filter_ne s.entries h]
    have hne : (key == name) = false := by simp [h]
    simp [List.lookup_cons, hne, h]

end AttrStore

end Reductions
