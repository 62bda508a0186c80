import Mathlib.Data.List.Nodup
import Reductions.Proofs.ByteOrder
import Reductions.Registry

/-!
# Filling a registry

A registry is filled by requests, each for one record or for all reduction
operators at once. A request registers its records in order and stops at the
first whose name is taken, with that name for an error. So a record is replaced
by no later one, and what a name stands for is the record that was registered
first under it.
-/

namespace Reductions

inductive Registration where
  | single (record : OperatorRecord)
  | reductions (options : StrategyOptions)

namespace Registration

def records : Registration → List OperatorRecord
  | single record => [record]
  | reductions options => ReductionOperator.table.map (OperatorRecord.ofReduction options)

theorem records_nodup (q : Registration) : (q.records.map OperatorRecord.name).Nodup := by
  cases q with
  | single record => exact List.nodup_singleton _
  | reductions options =>
      have hnames : ((reductions options).records.map OperatorRecord.name) =
          ReductionOperator.table.map ReductionOperator.name := by
        rw [records, List.map_map]
        rfl
      rw [hnames]
      decide

end Registration

namespace Registry

def step (r : Registry) : Registration → Registry × Except RegistryError Unit
  | .single record => r.register record
  | .reductions options => r.registerReductions options

def run (r : Registry) (requests : List Registration) : Registry :=
  requests.foldl (fun r q => (r.step q).1) r

variable {r : Registry} {record : OperatorRecord} {name : String}

/-! ## What a registry shows -/

theorem of_get? (h : r.get? name = some record) : record ∈ r.records ∧ record.name = name := by
  rw [get?] at h
  exact ⟨List.mem_of_find?_eq_some h, by simpa using List.find?_some h⟩

theorem get?_eq_some_iff : r.get? name = some record ↔ record ∈ r.records ∧ record.name = name := by
  constructor
  · exact of_get?
  · rintro ⟨hmem, rfl⟩
    have hsome : (r.get? record.name).isSome := by
      rw [get?, List.find?_isSome]
      exact ⟨record, hmem, beq_self_eq_true _⟩
    obtain ⟨other, hother⟩ := Option.isSome_iff_exists.1 hsome
    obtain ⟨hmem', hname⟩ := of_get? hother
    rw [hother, List.inj_on_of_nodup_map r.names_nodup hmem' hmem hname]

theorem names_perm (r : Registry) : r.names.Perm (r.records.map OperatorRecord.name) :=
  List.mergeSort_perm _ _

theorem mem_names : name ∈ r.names ↔ ∃ record ∈ r.records, record.name = name := by
  rw [r.names_perm.mem_iff, List.mem_map]

theorem mem_names_iff_get? : name ∈ r.names ↔ ∃ record, r.get? name = some record := by
  simp only [mem_names, get?_eq_some_iff]

theorem contains_iff : r.contains name = true ↔ name ∈ r.names := by
  rw [contains, Option.isSome_iff_exists, mem_names_iff_get?]

theorem length_names (r : Registry) : r.names.length = r.size := by
  rw [r.names_perm.length_eq, List.length_map, size]

theorem names_pairwise (r : Registry) : r.names.Pairwise (· < ·) := by
  have htrans : ∀ a b c : String, decide (a ≤ b) = true → decide (b ≤ c) = true →
      decide (a ≤ c) = true := by
    intro a b c hab hbc
    exact decide_eq_true (String.le_trans (of_decide_eq_true hab) (of_decide_eq_true hbc))
  have htotal : ∀ a b : String, (decide (a ≤ b) || decide (b ≤ a)) = true := by
    intro a b
    rw [Bool.or_eq_true, decide_eq_true_eq, decide_eq_true_eq]
    exact String.le_total a b
  have hsorted : r.names.Pairwise fun a b => decide (a ≤ b) = true :=
    List.pairwise_mergeSort htrans htotal _
  have hnodup : r.names.Nodup := r.names_perm.nodup_iff.2 r.names_nodup
  apply (hsorted.and hnodup).imp
  rintro a b ⟨hle, hne⟩
  exact lt_of_le_of_ne (of_decide_eq_true hle) hne

/-! ## One request -/

theorem register_of_mem_names (h : record.name ∈ r.names) :
    r.register record = (r, .error (.duplicateOperator record.name)) := by
  rw [register, dif_pos (contains_iff.2 h)]

theorem register_of_not_mem_names (h : record.name ∉ r.names) :
    ∃ r' : Registry, r.register record = (r', .ok ()) ∧ r'.records = r.records ++ [record] := by
  rw [register, dif_neg (mt contains_iff.1 h)]
  exact ⟨_, rfl, rfl⟩

theorem registerAll_append {front : List OperatorRecord}
    (hnodup : (front.map OperatorRecord.name).Nodup)
    (hfree : ∀ record ∈ front, record.name ∉ r.names) :
    ∃ r' : Registry, r'.records = r.records ++ front ∧
      ∀ rest, r.registerAll (front ++ rest) = r'.registerAll rest := by
  induction front generalizing r with
  | nil => exact ⟨r, (List.append_nil _).symm, fun _ => rfl⟩
  | cons record front ih =>
      obtain ⟨r₁, hregister, hrecords⟩ := register_of_not_mem_names (hfree record List.mem_cons_self)
      rw [List.map_cons, List.nodup_cons] at hnodup
      -- The names that were free still are: the new one is not among them.
      have hfree₁ : ∀ other ∈ front, other.name ∉ r₁.names := by
        intro other hother htaken
        obtain ⟨earlier, hearlier, hname⟩ := mem_names.1 htaken
        rw [hrecords, List.mem_append, List.mem_singleton] at hearlier
        rcases hearlier with hold | rfl
        · exact hfree other (List.mem_cons_of_mem _ hother) (mem_names.2 ⟨earlier, hold, hname⟩)
        · exact hnodup.1 (hname ▸ List.mem_map_of_mem hother)
      obtain ⟨r', hrecords', hrest⟩ := ih hnodup.2 hfree₁
      refine ⟨r', ?_, fun rest => ?_⟩
      · rw [hrecords', hrecords, List.append_assoc, List.singleton_append]
      · rw [List.cons_append, registerAll, hregister]
        exact hrest rest

theorem step_eq_registerAll (r : Registry) (q : Registration) :
    r.step q = r.registerAll q.records := by
  cases q with
  | single record =>
      rw [step, Registration.records, registerAll]
      obtain ⟨r', _ | _⟩ := r.register record <;> rfl
  | reductions options => rfl

/-- How a request can end: all its records are added, or those before the first whose name is taken,
which is then the error. -/
inductive Ends (r : Registry) (q : Registration) : Registry × Except RegistryError Unit → Prop
  | complete {r' : Registry} : (∀ record ∈ q.records, record.name ∉ r.names) →
      r'.records = r.records ++ q.records → Ends r q (r', .ok ())
  | clash {r' : Registry} (front : List OperatorRecord) (taken : OperatorRecord)
      (back : List OperatorRecord) : q.records = front ++ taken :: back →
      (∀ record ∈ front, record.name ∉ r.names) → taken.name ∈ r.names →
      r'.records = r.records ++ front → Ends r q (r', .error (.duplicateOperator taken.name))

theorem step_ends (r : Registry) (q : Registration) : r.Ends q (r.step q) := by
  have hnodup := q.records_nodup
  rw [step_eq_registerAll]
  cases hfind : q.records.find? fun record => decide (record.name ∈ r.names) with
  | none =>
      have hfree : ∀ record ∈ q.records, record.name ∉ r.names := by
        simpa using hfind
      obtain ⟨r', hrecords, hrest⟩ := registerAll_append hnodup hfree
      have hall := hrest []
      rw [List.append_nil] at hall
      rw [hall]
      exact .complete hfree hrecords
  | some taken =>
      obtain ⟨htaken, front, back, hsplit, hfront⟩ := List.find?_eq_some_iff_append.1 hfind
      have hfree : ∀ record ∈ front, record.name ∉ r.names := by
        simpa using hfront
      rw [hsplit, List.map_append] at hnodup
      obtain ⟨r', hrecords, hrest⟩ := registerAll_append hnodup.of_append_left hfree
      have hmem : taken.name ∈ r'.names := by
        obtain ⟨earlier, hearlier, hname⟩ := mem_names.1 (of_decide_eq_true htaken)
        exact mem_names.2 ⟨earlier, hrecords ▸ List.mem_append_left _ hearlier, hname⟩
      rw [hsplit, hrest, registerAll, register_of_mem_names hmem]
      exact .clash front taken back hsplit hfree (of_decide_eq_true htaken) hrecords

/-! ## Runs -/

/-- The request registers the record: it asks for it, and neither its name nor one before it is
taken. -/
def Succeeds (r : Registry) (q : Registration) (record : OperatorRecord) : Prop :=
  ∃ front back, q.records = front ++ record :: back ∧
    ∀ other ∈ front ++ [record], other.name ∉ r.names

theorem mem_of_append_cons_eq {α : Type} {front back before after : List α} {x y : α}
    (h : front ++ x :: back = before ++ y :: after) (hx : x ∉ before ++ [y]) : y ∈ front := by
  rw [List.append_cons before] at h
  rcases List.append_eq_append_iff.1 h with ⟨rest, hbefore, hrest⟩ | ⟨rest, hfront, _⟩
  · cases rest with
    | nil =>
        rw [List.append_nil] at hbefore
        rw [← hbefore]
        exact List.mem_append_right _ (List.mem_singleton_self _)
    | cons other rest =>
        obtain ⟨rfl, _⟩ := List.cons.inj hrest
        refine absurd ?_ hx
        rw [hbefore]
        exact List.mem_append_right _ List.mem_cons_self
  · rw [hfront]
    exact List.mem_append_left _ (List.mem_append_right _ (List.mem_singleton_self _))

theorem mem_records_step {q : Registration} :
    record ∈ (r.step q).1.records ↔ record ∈ r.records ∨ r.Succeeds q record := by
  generalize hresult : r.step q = result
  have hends := hresult ▸ r.step_ends q
  cases hends with
  | complete hfree hrecords =>
      rw [hrecords, List.mem_append]
      apply or_congr_right
      constructor
      · intro hmem
        obtain ⟨front, back, hsplit⟩ := List.append_of_mem hmem
        refine ⟨front, back, hsplit, fun other hother => hfree other ?_⟩
        rw [hsplit, List.append_cons]
        exact List.mem_append_left _ hother
      · rintro ⟨front, back, hsplit, _⟩
        rw [hsplit]
        exact List.mem_append_right _ List.mem_cons_self
  | clash front taken back hsplit hfree htaken hrecords =>
      rw [hrecords, List.mem_append]
      apply or_congr_right
      constructor
      · intro hmem
        obtain ⟨before, after, rfl⟩ := List.append_of_mem hmem
        refine ⟨before, after ++ taken :: back, ?_, fun other hother => hfree other ?_⟩
        · rw [hsplit, List.append_assoc, List.cons_append]
        · rw [List.append_cons]
          exact List.mem_append_left _ hother
      · rintro ⟨before, after, hsplit', hfree'⟩
        refine mem_of_append_cons_eq (hsplit.symm.trans hsplit') ?_
        exact fun hmem => hfree' taken hmem htaken

theorem mem_records_run {requests : List Registration} :
    record ∈ (r.run requests).records ↔ record ∈ r.records ∨
      ∃ before q after, requests = before ++ q :: after ∧ (r.run before).Succeeds q record := by
  induction requests generalizing r with
  | nil => simp [run]
  | cons q rest ih =>
      have hrun : r.run (q :: rest) = (r.step q).1.run rest := rfl
      rw [hrun, ih, mem_records_step, or_assoc]
      apply or_congr_right
      constructor
      · rintro (hnow | ⟨before, q', after, rfl, hlater⟩)
        · exact ⟨[], q, rest, rfl, hnow⟩
        · exact ⟨q :: before, q', after, rfl, hlater⟩
      · rintro ⟨before, q', after, heq, hsucceeds⟩
        cases before with
        | nil =>
            obtain ⟨rfl, rfl⟩ := List.cons.inj heq
            exact .inl hsucceeds
        | cons q₁ before =>
            obtain ⟨rfl, rfl⟩ := List.cons.inj heq
            exact .inr ⟨before, q', after, rfl, hsucceeds⟩

theorem run_append (r : Registry) (requests later : List Registration) :
    r.run (requests ++ later) = (r.run requests).run later :=
  List.foldl_append

theorem get?_run_of_get? (h : r.get? name = some record) (later : List Registration) :
    (r.run later).get? name = some record := by
  obtain ⟨hmem, hname⟩ := of_get? h
  exact get?_eq_some_iff.2 ⟨mem_records_run.2 (.inl hmem), hname⟩

theorem get?_run_empty {requests : List Registration} :
    (empty.run requests).get? name = some record ↔
      ∃ before q after, requests = before ++ q :: after ∧ record.name = name ∧
        (empty.run before).Succeeds q record := by
  have hnone : record ∉ empty.records := List.not_mem_nil
  rw [get?_eq_some_iff, mem_records_run, or_iff_right hnone]
  constructor
  · rintro ⟨⟨before, q, after, hsplit, hsucceeds⟩, hname⟩
    exact ⟨before, q, after, hsplit, hname, hsucceeds⟩
  · rintro ⟨before, q, after, hsplit, hname, hsucceeds⟩
    exact ⟨⟨before, q, after, hsplit, hsucceeds⟩, hname⟩

/-- In every registry that is reached from the empty one a name stands for the record that was
registered first under it, and keeps it whatever follows. The next request adds its records up to
the first whose name is taken, which it reports; a single record that is refused changes nothing.
The names are listed in the order of their bytes, each once, and the other views agree with them. -/
theorem run_registrations (requests : List Registration) :
    (∀ name record, (empty.run requests).get? name = some record ↔
      ∃ before q after, requests = before ++ q :: after ∧ record.name = name ∧
        (empty.run before).Succeeds q record) ∧
    (∀ later name record, (empty.run requests).get? name = some record →
      (empty.run (requests ++ later)).get? name = some record) ∧
    (∀ q, (empty.run requests).Ends q ((empty.run requests).step q)) ∧
    (∀ record, record.name ∈ (empty.run requests).names →
      (empty.run requests).step (.single record) =
        (empty.run requests, .error (.duplicateOperator record.name))) ∧
    (empty.run requests).names.Pairwise (fun a b => Text.bytes a < Text.bytes b) ∧
    (∀ name, name ∈ (empty.run requests).names ↔
      ∃ record, (empty.run requests).get? name = some record) ∧
    (∀ name, (empty.run requests).contains name = true ↔ name ∈ (empty.run requests).names) ∧
    (empty.run requests).size = (empty.run requests).names.length := by
  refine ⟨fun _ _ => get?_run_empty, ?_, fun q => step_ends _ q, ?_, ?_,
    fun _ => mem_names_iff_get?, fun _ => contains_iff, (length_names _).symm⟩
  · intro later name record h
    rw [run_append]
    exact get?_run_of_get? h later
  · exact fun record htaken => register_of_mem_names htaken
  · exact (names_pairwise _).imp Text.bytes_lt_of_lt

def plain (name : String) : OperatorRecord where
  name := name
  description := ""
  numInputs := 2
  numOutputs := 1
  staticStrategy := fun _ => .ok .empty
  symbolicStrategy := fun _ => .ok .empty
  pattern := .elementWise
  supportLevel := 0
  element := none

/-- The name of a reduction operator is taken before all of them are registered. -/
def crowded : List Registration :=
  [.single (plain "reduce_max"), .reductions {}]

theorem run_registrations_crowded :
    (empty.run crowded).names.Perm ["reduce_max", "reduce_sum", "reduce_prod"] ∧
      (empty.run crowded).get? "reduce_max" = some (plain "reduce_max") ∧
      (empty.run (crowded ++ [.reductions {}])).get? "reduce_max" = some (plain "reduce_max") ∧
      (plain "reduce_sum").name ∈ (empty.run crowded).names ∧
      (empty.run crowded).step (.single (plain "reduce_sum")) =
        (empty.run crowded, .error (.duplicateOperator "reduce_sum")) := by
  obtain ⟨_, hkept, _, hrefused, _⟩ := run_registrations crowded
  have hmax : (empty.run crowded).get? "reduce_max" = some (plain "reduce_max") := by rfl
  have hrecords : (empty.run crowded).records.map OperatorRecord.name =
      ["reduce_max", "reduce_sum", "reduce_prod"] := by
    rfl
  have hnames := hrecords ▸ (empty.run crowded).names_perm
  have hsum : (plain "reduce_sum").name ∈ (empty.run crowded).names := by
    rw [hnames.mem_iff]
    decide
  exact ⟨hnames, hmax, hkept [.reductions {}] _ _ hmax, hsum, hrefused (plain "reduce_sum") hsum⟩

end Registry

end Reductions
