import Reductions.Strategy.Reduce

/-!
# The operator registry

A registry keeps one record for each operator name and never replaces it. `GlobalRegistry` is the
state of a registry that is set up once: before that it has no answers, and it cannot be set up
again.
-/

namespace Reductions

inductive FusionPattern where
  | elementWise
  | broadcast
  | injective
  | reduction
  | outFusible
  | nonFusible
deriving DecidableEq, Repr, Inhabited

namespace FusionPattern

def all : List FusionPattern :=
  [elementWise, broadcast, injective, reduction, outFusible, nonFusible]

def name : FusionPattern → String
  | elementWise => "element-wise"
  | broadcast => "broadcast"
  | injective => "injective"
  | reduction => "reduction"
  | outFusible => "out-fusible"
  | nonFusible => "non-fusible"

def label : FusionPattern → String
  | elementWise => "ElementWise"
  | broadcast => "Broadcast"
  | injective => "Injective"
  | reduction => "Reduction"
  | outFusible => "OutFusible"
  | nonFusible => "NonFusible"

theorem mem_all (p : FusionPattern) : p ∈ all := by
  cases p <;> decide

end FusionPattern

structure OperatorRecord where
  name : String
  description : String
  numInputs : Nat
  numOutputs : Nat
  staticStrategy : StrategyBuilder
  symbolicStrategy : StrategyBuilder
  pattern : FusionPattern
  supportLevel : UInt32
  element : Option ElementType

namespace OperatorRecord

def describe (r : OperatorRecord) : String :=
  "OpRecord \x7b name: " ++ Text.quoted r.name ++ ", description: " ++ Text.quoted r.description
    ++ ", num_inputs: " ++ toString r.numInputs ++ ", num_outputs: " ++ toString r.numOutputs
    ++ ", pattern: " ++ r.pattern.label ++ ", support_level: " ++ toString r.supportLevel.toNat
    ++ ", dtype: " ++ describeElement r.element ++ ", .. \x7d"

def builder (r : OperatorRecord) : ShapeRegime → StrategyBuilder
  | .static => r.staticStrategy
  | .symbolic => r.symbolicStrategy

def ofReduction (options : StrategyOptions) (op : ReductionOperator) : OperatorRecord where
  name := op.name
  description := op.name ++ " function"
  numInputs := 1
  numOutputs := 1
  staticStrategy := op.build .static options
  symbolicStrategy := op.build .symbolic options
  pattern := .reduction
  supportLevel := options.supportLevel
  element := op.element

end OperatorRecord

inductive RegistryError where
  | duplicateOperator (name : String)
  | alreadyInitialized
  | notInitialized
deriving DecidableEq, Repr

def RegistryError.message : RegistryError → String
  | duplicateOperator name => "operator `" ++ name ++ "` is already registered"
  | alreadyInitialized => "the global operator registry is already initialised"
  | notInitialized => "the global operator registry is not initialised"

/-- Records in the order of registration, at most one for each name. -/
structure Registry where
  records : List OperatorRecord
  names_nodup : (records.map OperatorRecord.name).Nodup

namespace Registry

def empty : Registry := ⟨[], List.nodup_nil⟩

def get? (r : Registry) (name : String) : Option OperatorRecord :=
  r.records.find? fun record => record.name == name

def contains (r : Registry) (name : String) : Bool :=
  (r.get? name).isSome

def size (r : Registry) : Nat :=
  r.records.length

def names (r : Registry) : List String :=
  (r.records.map OperatorRecord.name).mergeSort fun a b => decide (a ≤ b)

theorem get?_eq_none_iff (r : Registry) (name : String) :
    r.get? name = none ↔ name ∉ r.records.map OperatorRecord.name := by
  simp [get?]

theorem names_append_nodup {r : Registry} {record : OperatorRecord}
    (h : ¬ r.contains record.name = true) :
    ((r.records ++ [record]).map OperatorRecord.name).Nodup := by
  rw [contains, Option.not_isSome_iff_eq_none, get?_eq_none_iff] at h
  rw [List.map_append, List.nodup_append]
  refine ⟨r.names_nodup, by simp, fun a ha b hb heq => ?_⟩
  obtain rfl := List.mem_singleton.1 hb
  exact h (heq ▸ ha)

/-- Adds a record, unless its name is taken. -/
def register (r : Registry) (record : OperatorRecord) : Registry × Except RegistryError Unit :=
  if h : r.contains record.name then (r, .error (.duplicateOperator record.name))
  else (⟨r.records ++ [record], names_append_nodup h⟩, .ok ())

/-- A record that is refused leaves the registry as it is. -/
theorem register_of_error {r : Registry} {record : OperatorRecord} {e : RegistryError}
    (h : (r.register record).2 = .error e) : (r.register record).1 = r := by
  unfold register at h ⊢
  split at h
  · next htaken => rw [dif_pos htaken]
  · cases h

/-- Registers records in order and stops at the first whose name is taken. What was registered
before it stays. -/
def registerAll (r : Registry) : List OperatorRecord → Registry × Except RegistryError Unit
  | [] => (r, .ok ())
  | record :: rest =>
    match r.register record with
    | (r', .ok ()) => registerAll r' rest
    | (r', .error e) => (r', .error e)

def registerReductions (r : Registry) (options : StrategyOptions) :
    Registry × Except RegistryError Unit :=
  r.registerAll (ReductionOperator.table.map (OperatorRecord.ofReduction options))

end Registry

/-- A registry that is set up once. -/
structure GlobalRegistry where
  installed : Option Registry

namespace GlobalRegistry

def uninitialized : GlobalRegistry := ⟨none⟩

def get (g : GlobalRegistry) : Except RegistryError Registry :=
  match g.installed with
  | some r => .ok r
  | none => .error .notInitialized

/-- Sets the registry up with the reduction operators and gives it. -/
def init (g : GlobalRegistry) (options : StrategyOptions) :
    GlobalRegistry × Except RegistryError Registry :=
  match g.installed with
  | some _ => (g, .error .alreadyInitialized)
  | none =>
    match Registry.empty.registerReductions options with
    | (_, .error e) => (g, .error e)
    | (r, .ok ()) => (⟨some r⟩, get ⟨some r⟩)

/-- Whoever fails to set the registry up leaves it as it is. -/
theorem init_of_error {g : GlobalRegistry} {options : StrategyOptions} {e : RegistryError}
    (h : (g.init options).2 = .error e) : (g.init options).1 = g := by
  unfold init at h ⊢
  split at h
  · rfl
  · split at h
    · rfl
    · cases h

end GlobalRegistry

end Reductions
