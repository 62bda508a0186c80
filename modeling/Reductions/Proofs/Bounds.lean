import Reductions.Proofs.Pipeline
import Reductions.Proofs.SimplifiedAccesses
import Reductions.Proofs.SymbolicShape

/-!
# Lowered code stays in bounds

The shape of a result and the indices that select its elements are computed
apart from each other. They agree: whatever the loops of an emitted tensor read
or write has one index for each dimension, and each index is below its size.
This holds before and after simplification.
-/

namespace Reductions

open Lowering

variable {V : Type} {I : Interpretation V}

/-- The place has exactly one index for each dimension, from zero up to its size. -/
def Shape.Contains (s : Shape) (place : Index) : Prop :=
  List.Forall₂ (fun w dim => 0 ≤ w.toInt ∧ w.toInt < dim.size) place s.dims

namespace Access

def tensor : Access → String
  | load tensor _ | store tensor _ => tensor

def place : Access → Index
  | load _ place | store _ place => place

/-- The access is to `result`, or reads `source`, and is in bounds there. -/
def InBounds (result source : Tensor) (a : Access) : Prop :=
  (a.tensor = result.name ∧ result.shape.Contains a.place) ∨
    ∃ place, a = .load source.name place ∧ source.shape.Contains place

/-- The accesses of a run that reduces `source` into `result`, by role: the result is stored to at
the places `starts`, and then each step loads an element of the result and one of the source and
stores the former. Every place is in bounds of the tensor it is meant for, whatever the two tensors
are called. -/
def RolesInBounds (result source : Tensor) (log : List Access) : Prop :=
  ∃ (starts : List Index) (steps : List (Index × Index)),
    log = starts.map (store result.name) ++ steps.flatMap (fun (o, i) =>
      [load result.name o, load source.name i, store result.name o]) ∧
    (∀ o ∈ starts, result.shape.Contains o) ∧
    ∀ o i, (o, i) ∈ steps → result.shape.Contains o ∧ source.shape.Contains i

theorem RolesInBounds.inBounds {result source : Tensor} {log : List Access}
    (h : RolesInBounds result source log) : ∀ a ∈ log, a.InBounds result source := by
  obtain ⟨starts, steps, rfl, hstarts, hsteps⟩ := h
  intro a ha
  rcases List.mem_append.1 ha with hstart | hstep
  · obtain ⟨o, ho, rfl⟩ := List.mem_map.1 hstart
    exact .inl ⟨rfl, hstarts o ho⟩
  · obtain ⟨⟨o, i⟩, hmem, hstep⟩ := List.mem_flatMap.1 hstep
    obtain ⟨ho, hi⟩ := hsteps o i hmem
    simp only [List.mem_cons, List.not_mem_nil, or_false] at hstep
    rcases hstep with rfl | rfl | rfl
    · exact .inl ⟨rfl, ho⟩
    · exact .inr ⟨i, rfl, hi⟩
    · exact .inl ⟨rfl, ho⟩

end Access

def Tensor.source? : Tensor → Option Tensor
  | input _ => none
  | reduction _ _ source _ _ => some source

theorem contains_collapse {s : Shape} (h : s.Bounded) (axes : List UInt64) (keepdim : Bool)
    {i : Index} (hi : i ∈ s.indices) :
    (s.reduced axes keepdim).Contains (collapse axes keepdim 0 i) := by
  have hmem : collapse axes keepdim 0 i ∈ (s.reduced axes keepdim).indices := by
    rw [Shape.indices, Shape.reduced_dims]
    exact collapse_mem_places axes keepdim hi
  exact (h.reduced axes keepdim).mem_indices.1 hmem

theorem reduce_rolesInBounds {x : Tensor} {kind : ReductionKind} {axes : List UInt64}
    {keepdim : Bool} {name : String} {tree : Expr}
    (htree : (x.reduce kind axes keepdim name).lower = .ok tree) (hbounded : x.shape.Bounded)
    (env : Env) (mem : Memory V) :
    Access.RolesInBounds (x.reduce kind axes keepdim name) x (tree.accesses I env mem) := by
  have hresult : (x.shape.reduced axes keepdim).Bounded := hbounded.reduced axes keepdim
  refine ⟨(x.shape.reduced axes keepdim).indices,
    x.shape.indices.map fun i => (collapse axes keepdim 0 i, i), ?_, ?_, ?_⟩
  · rw [accesses_lowered htree hbounded, List.flatMap_map, List.map_eq_flatMap]
    rfl
  · exact fun o ho => hresult.mem_indices.1 ho
  · intro o i hmem
    obtain ⟨j, hj, heq⟩ := List.mem_map.1 hmem
    obtain ⟨rfl, rfl⟩ := Prod.mk.inj heq
    exact ⟨contains_collapse hbounded axes keepdim hj, hbounded.mem_indices.1 hj⟩

theorem exists_lower_rolesInBounds (I : Interpretation V) {x : Tensor} (hbounded : x.shape.Bounded)
    (kind : ReductionKind) (axes : List UInt64) (keepdim : Bool) (name : String) :
    ∃ tree, (x.reduce kind axes keepdim name).lower = .ok tree ∧
      ∀ loops ∈ [tree, tree.simplify], ∀ (env : Env) (mem : Memory V),
        Access.RolesInBounds (x.reduce kind axes keepdim name) x (loops.accesses I env mem) := by
  obtain ⟨tree, htree⟩ := x.lower_reduce kind axes keepdim name
  refine ⟨tree, htree, fun loops hloops env mem => ?_⟩
  have hsame : loops.accesses I env mem = tree.accesses I env mem := by
    simp only [List.mem_cons, List.not_mem_nil, or_false] at hloops
    rcases hloops with rfl | rfl
    · rfl
    · exact (Settled.lower htree).1.accesses_simplify env mem
  rw [hsame]
  exact reduce_rolesInBounds htree hbounded env mem

/-- A run of the loops of any emitted tensor, simplified or not, stores to that tensor, and then in
steps loads from it, loads from the tensor that it reduces and stores to it again. Every access has
one index for each dimension of the tensor that it is meant for, from zero up to the size of that
dimension; nothing else is accessed. -/
theorem emit_inBounds (I : Interpretation V) (emitter : Emitter) (x : Tensor) (kind : ReductionKind)
    (axes : List UInt64) (keepdim : Bool) (name : String) (hbounded : x.shape.Bounded) :
    ∀ t ∈ emitter.emit kind x axes keepdim name, ∃ source tree,
      t.source? = some source ∧ t.lower = .ok tree ∧
        ∀ loops ∈ [tree, tree.simplify], ∀ (env : Env) (mem : Memory V),
          Access.RolesInBounds t source (loops.accesses I env mem) ∧
            ∀ a ∈ loops.accesses I env mem, a.InBounds t source := by
  intro t ht
  obtain ⟨source, axes', keepdim', name', rfl, horigin⟩ := emitter.exists_eq_reduce ht
  have hsource : source.shape.Bounded := by
    rcases horigin with rfl | ⟨last, rfl⟩
    · exact hbounded
    · exact hbounded.reduced [last] true
  obtain ⟨tree, htree, hinside⟩ := exists_lower_rolesInBounds I hsource kind axes' keepdim' name'
  refine ⟨source, tree, rfl, htree, fun loops hloops env mem => ?_⟩
  have hroles := hinside loops hloops env mem
  exact ⟨hroles, hroles.inBounds⟩

/-- The temporary of two steps and the result, from a source with a dimension that is kept. -/
theorem emit_inBounds_grid :
    grid.shape.Bounded ∧
      (Emitter.twoStep.emit .max grid [0, 1] true "y").map Tensor.name = ["y_tmp", "y"] ∧
      ∀ t ∈ Emitter.twoStep.emit .max grid [0, 1] true "y", ∃ source tree,
        t.source? = some source ∧ t.lower = .ok tree ∧
          Access.RolesInBounds t source
            (tree.accesses exactIntegers (fun _ => 0) gridMemory) ∧
          ∀ a ∈ tree.simplify.accesses exactIntegers (fun _ => 0) gridMemory,
            a.InBounds t source := by
  have hbounded : grid.shape.Bounded := by decide
  refine ⟨hbounded, by decide, fun t ht => ?_⟩
  obtain ⟨source, tree, hsource, htree, hruns⟩ :=
    emit_inBounds exactIntegers .twoStep grid .max [0, 1] true "y" hbounded t ht
  exact ⟨source, tree, hsource, htree, (hruns tree (by simp) _ _).1,
    (hruns tree.simplify (by simp) _ _).2⟩

end Reductions
