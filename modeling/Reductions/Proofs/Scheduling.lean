import Mathlib.Logic.Relation
import Reductions.Proofs.Merging
import Reductions.Strategy.Schedule

/-!
# What a schedule depends on

Of the entries that a schedule is given only the statement trees reach the
result; everything else is counted and otherwise ignored. There are five
outcomes, and which of them it is follows from the number of entries, the
statement trees and the architecture.
-/

namespace Reductions

/-! ## Entries -/

/-- An entry that is counted and otherwise ignored. -/
inductive Argument.Passenger : Argument → Prop
  | int (n : Int64) : Passenger (.int n)
  | float (x : Binary64) : Passenger (.float x)
  | string (s : String) : Passenger (.string s)
  | tensor (t : Tensor) : Passenger (.tensor t)
  | handle (t : Tensor) : Passenger (.expr (.handle t))
  | pack (entries : Pack) : Passenger (.pack entries)

namespace Argument

theorem asStatement?_eq_some_iff {a : Argument} {tree : Expr} :
    a.asStatement? = some tree ↔ a = .expr tree ∧ ∀ t, tree ≠ .handle t := by
  cases a with
  | expr e =>
      cases e with
      | handle t =>
          constructor
          · intro h
            cases h
          · rintro ⟨heq, hne⟩
            exact absurd (Argument.expr.inj heq).symm (hne t)
      | _ =>
          constructor
          · intro h
            obtain rfl := Option.some.inj h
            exact ⟨rfl, nofun⟩
          · rintro ⟨heq, _⟩
            obtain rfl := Argument.expr.inj heq
            rfl
  | _ => simp [asStatement?]

theorem asStatement?_eq_none_iff {a : Argument} : a.asStatement? = none ↔ a.Passenger := by
  constructor
  · intro h
    cases a with
    | int n => exact .int n
    | float x => exact .float x
    | string s => exact .string s
    | tensor t => exact .tensor t
    | pack entries => exact .pack entries
    | expr e =>
        cases e with
        | handle t => exact .handle t
        | _ => cases h
  · rintro (_ | _ | _ | _ | _ | _) <;> rfl

end Argument

namespace Schedule

def statements (entries : Pack) : List Expr :=
  entries.filterMap Argument.asStatement?

def Fits (options : StrategyOptions) (entries : Pack) : Prop :=
  options.minScheduleArgs.toNat ≤ entries.length ∧
    entries.length ≤ options.maxScheduleArgs.toNat

def HasStatement (entries : Pack) : Prop :=
  ∃ tree, .expr tree ∈ entries ∧ ∀ t, tree ≠ .handle t

inductive Boarding : Pack → Pack → Prop
  | intro (front back : Pack) {a : Argument} :
      a.Passenger → Boarding (front ++ back) (front ++ a :: back)

variable {options : StrategyOptions} {es es' : Pack}

theorem acceptsArity_eq_true_iff :
    acceptsArity options es.length = true ↔ Fits options es := by
  rw [acceptsArity, Fits, Bool.and_eq_true, decide_eq_true_eq, decide_eq_true_eq]

theorem statements_ne_nil_iff : statements es ≠ [] ↔ HasStatement es := by
  rw [← List.isEmpty_eq_false_iff, List.isEmpty_eq_false_iff_exists_mem]
  constructor
  · rintro ⟨tree, htree⟩
    obtain ⟨a, ha, hsome⟩ := List.mem_filterMap.1 htree
    obtain ⟨rfl, hne⟩ := Argument.asStatement?_eq_some_iff.1 hsome
    exact ⟨tree, ha, hne⟩
  · rintro ⟨tree, hmem, hne⟩
    have hsome : (Argument.expr tree).asStatement? = some tree :=
      Argument.asStatement?_eq_some_iff.2 ⟨rfl, hne⟩
    exact ⟨tree, List.mem_filterMap.2 ⟨_, hmem, hsome⟩⟩

theorem statements_append (front back : Pack) :
    statements (front ++ back) = statements front ++ statements back :=
  List.filterMap_append

theorem statements_cons_of_passenger {a : Argument} (h : a.Passenger) (back : Pack) :
    statements (a :: back) = statements back :=
  List.filterMap_cons_none (Argument.asStatement?_eq_none_iff.2 h)

theorem statements_of_boarding (h : Boarding es es') : statements es = statements es' := by
  obtain ⟨front, back, ha⟩ := h
  rw [statements_append, statements_append, statements_cons_of_passenger ha]

/-- A pack can be emptied of its passengers down to its statements. The induction is on the rest
that still holds some. -/
theorem eqvGen_boarding_statements (front rest : Pack) :
    Relation.EqvGen Boarding (front ++ rest)
      (front ++ (statements rest).map Argument.expr) := by
  induction rest generalizing front with
  | nil => exact .refl _
  | cons a rest ih =>
      cases ha : a.asStatement? with
      | none =>
          have hpassenger := Argument.asStatement?_eq_none_iff.1 ha
          have hleaves : Relation.EqvGen Boarding (front ++ a :: rest) (front ++ rest) :=
            .symm _ _ (.rel _ _ (.intro front rest hpassenger))
          rw [statements_cons_of_passenger hpassenger]
          exact .trans _ _ _ hleaves (ih front)
      | some tree =>
          obtain ⟨rfl, _⟩ := Argument.asStatement?_eq_some_iff.1 ha
          -- The statement joins the part that has been gone through.
          have hstays := ih (front ++ [.expr tree])
          rw [List.append_assoc, List.append_assoc] at hstays
          rw [statements, List.filterMap_cons_some ha]
          exact hstays

/-- Packs differ in passengers only exactly if they have the same statements. -/
theorem eqvGen_boarding_iff :
    Relation.EqvGen Boarding es es' ↔ statements es = statements es' := by
  constructor
  · intro h
    induction h with
    | rel _ _ h => exact statements_of_boarding h
    | refl => rfl
    | symm _ _ _ ih => exact ih.symm
    | trans _ _ _ _ _ ih ih' => exact ih.trans ih'
  · intro h
    have hempty := eqvGen_boarding_statements [] es
    have hempty' := eqvGen_boarding_statements [] es'
    rw [← h] at hempty'
    exact .trans _ _ _ hempty (.symm _ _ hempty')

/-! ## Outcomes -/

theorem trees_eq_nil_iff : trees es = [] ↔ ¬ HasStatement es := by
  rw [← statements_ne_nil_iff, not_not, trees, List.map_eq_nil_iff, statements]

theorem mergeTrees_trees (h : HasStatement es) :
    mergeTrees (trees es) = .ok (Program.mergedRoot (statements es)).simplify := by
  have htrees : trees es ≠ [] := fun hnil => trees_eq_nil_iff.1 hnil h
  have hmerge : (Program.mk (trees es)).merge =
      (⟨[(Program.mergedRoot (statements es)).simplify]⟩, .ok ()) := by
    rw [Program.merge_eq htrees, ← Program.mergedRoot_map_simplify]
    rfl
  simp [mergeTrees, hmerge]

section Outcomes

variable (op : String) (arch : Arch) (options : StrategyOptions) (args : Pack)

/-- What a schedule gives for its arguments. Each case takes for granted that none of those before
it applies. -/
inductive Outcome : Except StrategyError Pack → Prop
  | emptyArguments : args = [] → Outcome (.error (.fault op (.emptyArguments .schedule)))
  | arityMismatch : args ≠ [] → ¬ Fits options (entries args) →
      Outcome (.error (.fault op (.arityMismatch .schedule options.minScheduleArgs.toNat
        options.maxScheduleArgs.toNat (entries args).length)))
  | noStatements : args ≠ [] → Fits options (entries args) → ¬ HasStatement (entries args) →
      Outcome (.error (.fault op .noStatements))
  | unsupportedArchitecture : args ≠ [] → Fits options (entries args) →
      HasStatement (entries args) → arch = .unknown →
      Outcome (.error (.fault op (.unsupportedArchitecture arch)))
  | fused : args ≠ [] → Fits options (entries args) → HasStatement (entries args) →
      arch ≠ .unknown →
      Outcome (.ok [.expr (Program.mergedRoot (statements (entries args))).simplify])

theorem exists_outcome : ∃ r, Outcome op arch options args r := by
  by_cases hargs : args = []
  · exact ⟨_, .emptyArguments hargs⟩
  by_cases hfits : Fits options (entries args)
  · by_cases hsome : HasStatement (entries args)
    · by_cases harch : arch = .unknown
      · exact ⟨_, .unsupportedArchitecture hargs hfits hsome harch⟩
      · exact ⟨_, .fused hargs hfits hsome harch⟩
    · exact ⟨_, .noStatements hargs hfits hsome⟩
  · exact ⟨_, .arityMismatch hargs hfits⟩

variable {op arch options args}

theorem buildSchedule_of_outcome {r : Except StrategyError Pack}
    (h : Outcome op arch options args r) : buildSchedule op arch options args = r := by
  cases h with
  | emptyArguments hargs => simp [buildSchedule, hargs]
  | arityMismatch hargs hfits =>
      rw [← acceptsArity_eq_true_iff] at hfits
      simp [buildSchedule, hargs, hfits]
  | noStatements hargs hfits hnone =>
      have htrees : trees (entries args) = [] := trees_eq_nil_iff.2 hnone
      rw [← acceptsArity_eq_true_iff] at hfits
      simp [buildSchedule, hargs, hfits, htrees]
  | unsupportedArchitecture hargs hfits hsome harch =>
      have htrees : trees (entries args) ≠ [] := fun h => trees_eq_nil_iff.1 h hsome
      have hmerge := mergeTrees_trees hsome
      rw [← acceptsArity_eq_true_iff] at hfits
      simp [buildSchedule, hargs, hfits, htrees, hmerge, harch]
  | fused hargs hfits hsome harch =>
      have htrees : trees (entries args) ≠ [] := fun h => trees_eq_nil_iff.1 h hsome
      have hmerge := mergeTrees_trees hsome
      rw [← acceptsArity_eq_true_iff] at hfits
      simp [buildSchedule, hargs, hfits, htrees, hmerge, harch]

theorem buildSchedule_eq_iff {r : Except StrategyError Pack} :
    buildSchedule op arch options args = r ↔ Outcome op arch options args r := by
  constructor
  · intro h
    obtain ⟨r', hr'⟩ := exists_outcome op arch options args
    have heq : r' = r := (buildSchedule_of_outcome hr').symm.trans h
    exact heq ▸ hr'
  · exact buildSchedule_of_outcome

theorem buildSchedule_congr {args' : Pack} (hargs : args ≠ []) (hargs' : args' ≠ [])
    (hfits : Fits options (entries args)) (hfits' : Fits options (entries args'))
    (h : statements (entries args) = statements (entries args')) :
    buildSchedule op arch options args = buildSchedule op arch options args' := by
  have htrees : trees (entries args) = trees (entries args') := congrArg (List.map Expr.simplify) h
  rw [← acceptsArity_eq_true_iff] at hfits hfits'
  simp [buildSchedule, hargs, hargs', hfits, hfits', htrees]

/-- A schedule fails for want of arguments, for their number, for want of statements or for the
architecture, in this order, and otherwise gives one tree. The tree is made from the statements
alone, and passengers can come, go, change and move without any effect on the outcome as long as
the number of entries stays in range. -/
theorem buildSchedule_outcome (op : String) (arch : Arch) (options : StrategyOptions)
    (args : Pack) :
    (∀ r, buildSchedule op arch options args = r ↔ Outcome op arch options args r) ∧
    ∀ args', args ≠ [] → args' ≠ [] → Fits options (entries args) →
      Fits options (entries args') → Relation.EqvGen Boarding (entries args) (entries args') →
      buildSchedule op arch options args = buildSchedule op arch options args' := by
  refine ⟨fun r => buildSchedule_eq_iff, ?_⟩
  intro args' hargs hargs' hfits hfits' hpassengers
  exact buildSchedule_congr hargs hargs' hfits hfits' (eqvGen_boarding_iff.1 hpassengers)

def bare : Pack := [
  .expr (.loop "i" (.int 3) (.int 1) .empty (.store "t" [.var "i"] (.int 1))),
  .expr (.store "u" [.int 0] (.int 2))]

/-- The same statements in a nested pack, with other entries before, between and after them. -/
def accompanied : Pack := [.pack [
  .string "a", .tensor (.input ⟨"x", ⟨[.fixed 4]⟩, .float32⟩),
  .expr (.loop "i" (.int 3) (.int 1) .empty (.store "t" [.var "i"] (.int 1))),
  .int 3, .expr (.handle (.input ⟨"x", ⟨[.fixed 4]⟩, .float32⟩)),
  .expr (.store "u" [.int 0] (.int 2)), .pack []]]

theorem buildSchedule_outcome_accompanied :
    bare ≠ [] ∧ accompanied ≠ [] ∧ Fits {} (entries bare) ∧ Fits {} (entries accompanied) ∧
      Relation.EqvGen Boarding (entries bare) (entries accompanied) ∧
      buildSchedule "reduce_sum" .arm {} bare = buildSchedule "reduce_sum" .arm {} accompanied ∧
      buildSchedule "reduce_sum" .arm {} bare =
        .ok [.expr (.block [.store "t" [.int 3] (.int 1), .store "u" [.int 0] (.int 2)])] := by
  obtain ⟨houtcome, hsame⟩ := buildSchedule_outcome "reduce_sum" .arm {} bare
  have hbare : bare ≠ [] := List.cons_ne_nil _ _
  have haccompanied : accompanied ≠ [] := List.cons_ne_nil _ _
  have hfits : Fits {} (entries bare) := ⟨by decide, by decide⟩
  have hfits' : Fits {} (entries accompanied) := ⟨by decide, by decide⟩
  have hpassengers : Relation.EqvGen Boarding (entries bare) (entries accompanied) :=
    eqvGen_boarding_iff.2 rfl
  have hsome : HasStatement (entries bare) := ⟨_, List.mem_cons_self, nofun⟩
  exact ⟨hbare, haccompanied, hfits, hfits', hpassengers,
    hsame accompanied hbare haccompanied hfits hfits' hpassengers,
    (houtcome _).2 (.fused hbare hfits hsome (by decide))⟩

end Outcomes

end Schedule

end Reductions
