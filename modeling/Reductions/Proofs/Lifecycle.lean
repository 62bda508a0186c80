import Reductions.Proofs.Registration

/-!
# The life of the global registry

The global registry is used by requests: one sets it up with options, the others
look something up in it or build a strategy from one of its records. Only the
first setting-up counts. It cannot fail, and what it installs answers every
request that follows.
-/

namespace Reductions

inductive Query where
  | record (name : String)
  | known (name : String)
  | names
  | size
  | strategy (name : String) (regime : ShapeRegime) (call : OperatorCall)

inductive Reply where
  | registry (registry : Registry)
  | record (record : Option OperatorRecord)
  | known (known : Bool)
  | names (names : List String)
  | size (size : Nat)
  /-- What the builder of the record gave, if there is a record. -/
  | strategy (built : Option (Except StrategyError Strategy))

def Query.answer (r : Registry) : Query → Reply
  | record name => .record (r.get? name)
  | known name => .known (r.contains name)
  | names => .names r.names
  | size => .size r.size
  | strategy name regime call =>
    .strategy ((r.get? name).map fun record => record.builder regime call)

namespace Registry

def filled (options : StrategyOptions) : Registry :=
  (empty.registerReductions options).1

variable (options : StrategyOptions)

private theorem registerReductions_empty_spec : ∃ r : Registry,
    r.records = ReductionOperator.table.map (OperatorRecord.ofReduction options) ∧
      empty.registerReductions options = (r, .ok ()) := by
  have hnodup := (Registration.reductions options).records_nodup
  have hfree : ∀ record ∈ (Registration.reductions options).records,
      record.name ∉ empty.names := by
    intro record _ htaken
    obtain ⟨earlier, hearlier, _⟩ := mem_names.1 htaken
    exact List.not_mem_nil hearlier
  obtain ⟨r, hrecords, hrest⟩ := registerAll_append hnodup hfree
  refine ⟨r, hrecords, ?_⟩
  have hall := hrest []
  rw [List.append_nil] at hall
  exact hall

theorem records_filled :
    (filled options).records = ReductionOperator.table.map (OperatorRecord.ofReduction options) := by
  obtain ⟨r, hrecords, hresult⟩ := registerReductions_empty_spec options
  rw [filled, hresult, hrecords]

theorem registerReductions_empty :
    empty.registerReductions options = (filled options, .ok ()) := by
  obtain ⟨r, _, hresult⟩ := registerReductions_empty_spec options
  rw [filled, hresult]

theorem get?_filled (name : String) :
    (filled options).get? name =
      (ReductionOperator.find? name).map (OperatorRecord.ofReduction options) := by
  rw [get?, records_filled, List.find?_map]
  rfl

theorem names_filled :
    (filled options).names =
      ["reduce_all", "reduce_any", "reduce_max", "reduce_min", "reduce_prod", "reduce_sum"] := by
  have hperm : (filled options).names.Perm (ReductionOperator.table.map ReductionOperator.name) := by
    have h := names_perm (filled options)
    rw [records_filled, List.map_map] at h
    exact h
  -- Both lists increase strictly and have the same members.
  refine (hperm.trans (by decide)).eq_of_pairwise ?_ (names_pairwise _) (by decide)
  intro a b _ _ hab hba
  exact absurd (lt_trans hab hba) (lt_irrefl a)

theorem size_filled : (filled options).size = 6 := by
  rw [← length_names, names_filled]
  rfl

theorem builder_filled (name : String) (regime : ShapeRegime) (call : OperatorCall) :
    ((filled options).get? name).map (fun record => record.builder regime call) =
      (ReductionOperator.find? name).map fun op => op.build regime options call := by
  rw [get?_filled, Option.map_map]
  cases regime <;> rfl

end Registry

namespace GlobalRegistry

inductive Request where
  | init (options : StrategyOptions)
  | ask (query : Query)

def Request.options? : Request → Option StrategyOptions
  | init options => some options
  | ask _ => none

def step (g : GlobalRegistry) : Request → GlobalRegistry × Except RegistryError Reply
  | .init options =>
    let (g', result) := g.init options
    (g', result.map .registry)
  | .ask query => (g, g.get.map query.answer)

def run (g : GlobalRegistry) (requests : List Request) : GlobalRegistry :=
  requests.foldl (fun g q => (g.step q).1) g

def firstOptions? (requests : List Request) : Option StrategyOptions :=
  requests.findSome? Request.options?

/-! ## One request -/

theorem init_uninitialized (options : StrategyOptions) :
    uninitialized.init options = (⟨some (.filled options)⟩, .ok (.filled options)) := by
  simp only [init, uninitialized, Registry.registerReductions_empty]
  rfl

theorem step_init_uninitialized (options : StrategyOptions) :
    uninitialized.step (.init options) =
      (⟨some (.filled options)⟩, .ok (.registry (.filled options))) := by
  simp only [step, init_uninitialized]
  rfl

theorem step_ask_uninitialized (query : Query) :
    uninitialized.step (.ask query) = (uninitialized, .error .notInitialized) :=
  rfl

theorem step_init_installed (r : Registry) (options : StrategyOptions) :
    step ⟨some r⟩ (.init options) = (⟨some r⟩, .error .alreadyInitialized) :=
  rfl

theorem step_ask_installed (r : Registry) (query : Query) :
    step ⟨some r⟩ (.ask query) = (⟨some r⟩, .ok (query.answer r)) :=
  rfl

/-! ## Runs -/

theorem run_installed (r : Registry) (requests : List Request) :
    run ⟨some r⟩ requests = ⟨some r⟩ := by
  induction requests with
  | nil => rfl
  | cons q rest ih => cases q <;> exact ih

theorem run_uninitialized (requests : List Request) :
    uninitialized.run requests = ⟨(firstOptions? requests).map .filled⟩ := by
  induction requests with
  | nil => rfl
  | cons q rest ih =>
      cases q with
      | init options =>
          have hstep := congrArg Prod.fst (step_init_uninitialized options)
          calc uninitialized.run (.init options :: rest)
              = (uninitialized.step (.init options)).1.run rest := rfl
            _ = run ⟨some (.filled options)⟩ rest := by rw [hstep]
            _ = ⟨some (.filled options)⟩ := run_installed _ rest
      | ask query => exact ih

/-- After any requests from the start, the first options that came decide what happens next. As long
as there were none every look-up fails, and setting the registry up succeeds and installs what a
fresh registry holds once the reduction operators are registered in it. From then on a look-up or a
building of a strategy gives what it gives on that fresh registry, setting up fails whatever its
options, and nothing changes any more. The fresh registry holds the six reduction operators and no
others, each with the options it was filled with. -/
theorem lifecycle (requests : List Request) :
    (∀ query, (uninitialized.run requests).step (.ask query) =
      (uninitialized.run requests,
        match firstOptions? requests with
        | none => .error .notInitialized
        | some options => .ok (query.answer (.filled options)))) ∧
    (∀ options, (uninitialized.run requests).step (.init options) =
      match firstOptions? requests with
      | none => (⟨some (.filled options)⟩, .ok (.registry (.filled options)))
      | some _ => (uninitialized.run requests, .error .alreadyInitialized)) ∧
    (∀ options, Registry.empty.registerReductions options = (.filled options, .ok ()) ∧
      (Registry.filled options).size = 6 ∧
      (Registry.filled options).names =
        ["reduce_all", "reduce_any", "reduce_max", "reduce_min", "reduce_prod", "reduce_sum"] ∧
      ∀ name, (Registry.filled options).get? name =
          (ReductionOperator.find? name).map (OperatorRecord.ofReduction options) ∧
        ∀ regime call, Query.answer (.filled options) (.strategy name regime call) =
          .strategy ((ReductionOperator.find? name).map fun op => op.build regime options call)) := by
  rw [run_uninitialized]
  refine ⟨fun query => ?_, fun options => ?_, fun options => ⟨Registry.registerReductions_empty options,
    Registry.size_filled options, Registry.names_filled options, fun name =>
      ⟨Registry.get?_filled options name, fun regime call => ?_⟩⟩⟩
  · cases firstOptions? requests with
    | none => exact step_ask_uninitialized query
    | some options => exact step_ask_installed _ query
  · cases firstOptions? requests with
    | none => exact step_init_uninitialized options
    | some earlier => exact step_init_installed _ options
  · rw [Query.answer, Registry.builder_filled]

end GlobalRegistry

end Reductions
