import Mathlib.Data.List.Induction
import Reductions.Strategy.Basic

/-!
# The implementation to use

A strategy is used by requests: one adds an implementation, the others look at
what has been added. Whatever has been requested, the implementation to use is
the first of those with the highest priority. A new one takes its place exactly
if its priority is higher.
-/

namespace Reductions.Strategy

inductive Request where
  | add (implementation : Implementation)
  | best
  | list
  | isEmpty

inductive Reply where
  | done
  | best (implementation : Option Implementation)
  | list (implementations : List Implementation)
  | isEmpty (empty : Bool)

def Request.added? : Request → Option Implementation
  | add i => some i
  | best | list | isEmpty => none

def step (s : Strategy) : Request → Strategy × Reply
  | .add i => (s.add i, .done)
  | .best => (s, .best s.best?)
  | .list => (s, .list s.implementations)
  | .isEmpty => (s, .isEmpty s.implementations.isEmpty)

def run (s : Strategy) (requests : List Request) : Strategy :=
  requests.foldl (fun s q => (s.step q).1) s

/-- The implementation stands at the place, has the highest priority in the list, and has no other
with this priority before it. -/
def Leads (list : List Implementation) (place : Nat) (best : Implementation) : Prop :=
  list[place]? = some best ∧
    ∀ k i, list[k]? = some i →
      i.priority ≤ best.priority ∧ (i.priority = best.priority → place ≤ k)

/-! ## The search from the end -/

def better (earlier later : Implementation) : Implementation :=
  if earlier.priority < later.priority then later else earlier

theorem laterHighest_assoc (a b c : Implementation) :
    laterHighest (laterHighest a b) c = laterHighest a (laterHighest b c) := by
  simp only [laterHighest, Int32.lt_iff_toInt_lt]
  grind

theorem lastHighest?_cons (i : Implementation) (list : List Implementation) :
    lastHighest? (i :: list) =
      some (match lastHighest? list with | none => i | some b => better b i) := by
  cases list with
  | nil => rfl
  | cons first rest =>
      have hassoc : Std.Associative laterHighest := ⟨laterHighest_assoc⟩
      exact congrArg some (List.foldl_assoc ..)

theorem best?_add (s : Strategy) (i : Implementation) :
    (s.add i).best? = some (match s.best? with | none => i | some b => better b i) := by
  rw [best?, add, List.reverse_concat, lastHighest?_cons]
  rfl

/-! ## One more implementation -/

section OneMore

variable {list : List Implementation} {place : Nat} {best i : Implementation}

theorem getElem?_concat_eq_some_iff {k : Nat} {j : Implementation} :
    (list ++ [i])[k]? = some j ↔ list[k]? = some j ∨ k = list.length ∧ j = i := by
  rcases Nat.lt_trichotomy k list.length with hlt | heq | hgt
  · rw [List.getElem?_append_left hlt]
    exact (or_iff_left fun h => absurd h.1 (by omega)).symm
  · subst heq
    simp [eq_comm]
  · have hnone : list[k]? = none := List.getElem?_eq_none (by omega)
    have hnone' : (list ++ [i])[k]? = none := by
      apply List.getElem?_eq_none
      rw [List.length_append, List.length_singleton]
      omega
    rw [hnone, hnone']
    simp only [reduceCtorEq, false_or, false_iff, not_and]
    omega

theorem leads_singleton (i : Implementation) : Leads [i] 0 i := by
  refine ⟨rfl, fun k j hj => ?_⟩
  obtain ⟨rfl, rfl⟩ : k = 0 ∧ i = j := by
    rw [List.getElem?_singleton] at hj
    split at hj
    · next hzero => exact ⟨hzero, Option.some.inj hj⟩
    · cases hj
  exact ⟨Int32.le_refl _, fun _ => Nat.le_refl _⟩

theorem Leads.append (h : Leads list place best) (i : Implementation) :
    Leads (list ++ [i]) (if best.priority < i.priority then list.length else place)
      (better best i) := by
  obtain ⟨hbest, hall⟩ := h
  rw [better]
  by_cases hhigher : best.priority < i.priority
  · rw [if_pos hhigher, if_pos hhigher]
    refine ⟨getElem?_concat_eq_some_iff.2 (.inr ⟨rfl, rfl⟩), fun k j hj => ?_⟩
    rcases getElem?_concat_eq_some_iff.1 hj with hearlier | ⟨rfl, rfl⟩
    · have hlt : j.priority < i.priority := by
        have hle := (hall k j hearlier).1
        rw [Int32.le_iff_toInt_le] at hle
        rw [Int32.lt_iff_toInt_lt] at hhigher ⊢
        omega
      exact ⟨Int32.le_of_lt hlt, fun heq => absurd heq (Int32.ne_of_lt hlt)⟩
    · exact ⟨Int32.le_refl _, fun _ => Nat.le_refl _⟩
  · rw [if_neg hhigher, if_neg hhigher]
    have hplace : place < list.length := (List.getElem?_eq_some_iff.1 hbest).1
    refine ⟨getElem?_concat_eq_some_iff.2 (.inl hbest), fun k j hj => ?_⟩
    rcases getElem?_concat_eq_some_iff.1 hj with hearlier | ⟨rfl, rfl⟩
    · exact hall k j hearlier
    · exact ⟨Int32.not_lt.1 hhigher, fun _ => Nat.le_of_lt hplace⟩

theorem Leads.place_unique {place' : Nat} {best' : Implementation} (h : Leads list place best)
    (h' : Leads list place' best') : place = place' := by
  obtain ⟨hbest, hall⟩ := h
  obtain ⟨hbest', hall'⟩ := h'
  obtain ⟨hle, hfirst⟩ := hall _ _ hbest'
  obtain ⟨hle', hfirst'⟩ := hall' _ _ hbest
  have hsame : best.priority = best'.priority := Int32.le_antisymm hle' hle
  exact Nat.le_antisymm (hfirst hsame.symm) (hfirst' hsame)

/-- An implementation takes the place of the best exactly if its priority is higher than that of
every best before it. -/
theorem best?_add_ne_iff {s : Strategy} :
    (s.add i).best? ≠ s.best? ↔ ∀ best, s.best? = some best → best.priority < i.priority := by
  rw [best?_add]
  cases s.best? with
  | none => simp
  | some best =>
      by_cases hhigher : best.priority < i.priority
      · have hne : i ≠ best := by
          rintro rfl
          exact Int32.lt_irrefl hhigher
        simp [better, hhigher, hne]
      · simp [better, hhigher]

theorem best?_add_of_higher {s : Strategy}
    (h : ∀ best, s.best? = some best → best.priority < i.priority) :
    (s.add i).best? = some i := by
  rw [best?_add]
  cases hbest : s.best? with
  | none => rfl
  | some best => simp [better, h best hbest]

end OneMore

/-! ## All implementations -/

theorem best?_eq_none_iff {s : Strategy} : s.best? = none ↔ s.implementations = [] := by
  rw [best?, ← List.reverse_eq_nil_iff]
  cases s.implementations.reverse <;> simp [lastHighest?]

theorem exists_leads {list : List Implementation} (h : list ≠ []) :
    ∃ best place, best? ⟨list⟩ = some best ∧ Leads list place best := by
  induction list using List.reverseRecOn with
  | nil => exact absurd rfl h
  | append_singleton list i ih =>
      have hadd := best?_add ⟨list⟩ i
      by_cases hnil : list = []
      · subst hnil
        exact ⟨i, 0, hadd, leads_singleton i⟩
      · obtain ⟨best, place, hbest, hleads⟩ := ih hnil
        rw [hbest] at hadd
        exact ⟨better best i, _, hadd, hleads.append i⟩

theorem best?_eq_some_iff {s : Strategy} {best : Implementation} :
    s.best? = some best ↔ ∃ place, Leads s.implementations place best := by
  constructor
  · intro hbest
    have hne : s.implementations ≠ [] := by
      intro hnil
      rw [best?_eq_none_iff.2 hnil] at hbest
      cases hbest
    obtain ⟨best', place, hbest', hleads⟩ := exists_leads hne
    rw [Option.some.inj (hbest.symm.trans hbest')]
    exact ⟨place, hleads⟩
  · rintro ⟨place, hleads⟩
    have hne : s.implementations ≠ [] := by
      intro hnil
      have hfirst := hleads.1
      rw [hnil] at hfirst
      cases hfirst
    obtain ⟨best', place', hbest', hleads'⟩ := exists_leads hne
    have hplace := hleads.place_unique hleads'
    have hsame := hleads.1.symm.trans (hplace ▸ hleads'.1)
    rwa [Option.some.inj hsame]

/-! ## Runs -/

theorem step_implementations (s : Strategy) (q : Request) :
    (s.step q).1.implementations = s.implementations ++ q.added?.toList := by
  cases q with
  | add i => rfl
  | best | list | isEmpty => exact (List.append_nil _).symm

theorem run_implementations (s : Strategy) (requests : List Request) :
    (s.run requests).implementations =
      s.implementations ++ requests.filterMap Request.added? := by
  induction requests generalizing s with
  | nil => exact (List.append_nil _).symm
  | cons q rest ih =>
      have hrest := ih (s.step q).1
      rw [step_implementations, List.append_assoc] at hrest
      rw [run, List.foldl_cons, ← run, hrest]
      cases hadded : q.added? <;> simp [hadded]

/-- After any requests to a fresh strategy it holds the implementations that were added, in their
order, whatever was asked in between, and asking changes nothing. There is none to use exactly if
none was added; otherwise it is the one at the first place with the highest priority. One more
implementation changes the one to use exactly if there was none or its priority is higher, and then
it is the one to use itself. -/
theorem run_selects (requests : List Request) :
    (empty.run requests).implementations = requests.filterMap Request.added? ∧
    (∀ q, q.added? = none → ((empty.run requests).step q).1 = empty.run requests) ∧
    ((empty.run requests).best? = none ↔ requests.filterMap Request.added? = []) ∧
    (∀ best, (empty.run requests).best? = some best ↔
      ∃ place, Leads (requests.filterMap Request.added?) place best) ∧
    (∀ i, ((empty.run (requests ++ [.add i])).best? ≠ (empty.run requests).best? ↔
        requests.filterMap Request.added? = [] ∨
          ∃ best, (empty.run requests).best? = some best ∧ best.priority < i.priority) ∧
      ((empty.run (requests ++ [.add i])).best? ≠ (empty.run requests).best? →
        (empty.run (requests ++ [.add i])).best? = some i)) := by
  have hadded : (empty.run requests).implementations = requests.filterMap Request.added? :=
    run_implementations empty requests
  refine ⟨hadded, ?_, ?_, ?_, ?_⟩
  · intro q hq
    cases q with
    | add i => cases hq
    | best | list | isEmpty => rfl
  · rw [best?_eq_none_iff, hadded]
  · intro best
    rw [best?_eq_some_iff, hadded]
  · intro i
    have hadd : empty.run (requests ++ [.add i]) = (empty.run requests).add i := by
      rw [run, List.foldl_append]
      rfl
    rw [hadd]
    refine ⟨?_, fun hne => best?_add_of_higher (best?_add_ne_iff.1 hne)⟩
    rw [best?_add_ne_iff, ← hadded, ← best?_eq_none_iff]
    cases (empty.run requests).best? <;> simp

def passing (name : String) (priority : Int32) : Implementation where
  name := name
  priority := priority
  compute := .ok
  schedule := none

/-- Two implementations share the highest priority, and one comes after it was asked for the best.
-/
def contested : List Request :=
  [.add (passing "fallback" (-3)), .best, .add (passing "first" 5), .list,
    .add (passing "second" 5), .isEmpty, .add (passing "last" 2)]

theorem run_selects_contested :
    (empty.run contested).best? = some (passing "first" 5) ∧
      Leads (contested.filterMap Request.added?) 1 (passing "first" 5) ∧
      (empty.run (contested ++ [.add (passing "third" 5)])).best? =
        (empty.run contested).best? ∧
      (empty.run (contested ++ [.add (passing "winner" 6)])).best? =
        some (passing "winner" 6) := by
  obtain ⟨_, _, _, hbest, hadd⟩ := run_selects contested
  have hleads : Leads (contested.filterMap Request.added?) 1 (passing "first" 5) := by
    refine ⟨rfl, fun k i hk => ?_⟩
    match k, hk with
    | 0, rfl => exact ⟨by decide, by decide⟩
    | 1, rfl => exact ⟨by decide, by decide⟩
    | 2, rfl => exact ⟨by decide, by decide⟩
    | 3, rfl => exact ⟨by decide, by decide⟩
  have hfirst := (hbest (passing "first" 5)).2 ⟨1, hleads⟩
  obtain ⟨hsame, _⟩ := hadd (passing "third" 5)
  obtain ⟨hother, hwins⟩ := hadd (passing "winner" 6)
  refine ⟨hfirst, hleads, ?_, hwins (hother.2 (.inr ⟨_, hfirst, by decide⟩))⟩
  by_contra hne
  rcases hsame.1 hne with hnil | ⟨best, hbest', hhigher⟩
  · cases hnil
  · rw [← Option.some.inj (hfirst.symm.trans hbest')] at hhigher
    exact absurd hhigher (by decide)

end Reductions.Strategy
