import Mathlib.Data.List.Forall2
import Reductions.Proofs.Iterations
import Reductions.Proofs.Occurrences
import Reductions.Proofs.Reduction

/-!
# Symbolic dimensions

A symbol stands for a size that is known when the loops run, so it is a variable
of the tree around the nest. The variables of the loops have names too: a symbol
named like the variable of a loop outside its own dimension is captured. Where
that does not happen (`Uncaptured`) the free variables of a lowered reduction are
its symbols, and the loops walk over the index space that the sizes give.
-/

namespace Reductions

open Lowering

variable {V : Type} {I : Interpretation V}

/-! ## Sizes for symbols -/

def Dim.sized (sizes : Env) : Dim → Dim
  | fixed size => fixed size
  | symbol name => fixed (UInt64.ofNat (sizes name).toNatClampNeg)

def Shape.sized (sizes : Env) (s : Shape) : Shape :=
  ⟨s.dims.map (Dim.sized sizes)⟩

theorem toNatClampNeg_lt (w : Int64) : w.toNatClampNeg < 2 ^ 63 := by
  have hlt : w.toInt < 2 ^ 63 := w.toInt_lt
  have hclamp : w.toNatClampNeg = w.toInt.toNat := rfl
  omega

theorem Dim.size_sized_symbol (sizes : Env) (name : String) :
    ((symbol name).sized sizes).size = (sizes name).toNatClampNeg := by
  have hlt := toNatClampNeg_lt (sizes name)
  change (UInt64.ofNat _).toNat = _
  rw [UInt64.toNat_ofNat_of_lt']
  exact hlt.trans (by decide)

theorem Dim.bounded_sized_symbol (sizes : Env) (name : String) :
    ((symbol name).sized sizes).Bounded := by
  have hsize := size_sized_symbol sizes name
  have hlt := toNatClampNeg_lt (sizes name)
  change ((symbol name).sized sizes).size < 2 ^ 63
  omega

theorem Dim.bounded_sized_iff {dim : Dim} {sizes : Env} :
    (dim.sized sizes).Bounded ↔ ∀ size, .fixed size = dim → size.toNat < 2 ^ 63 := by
  cases dim with
  | fixed size => exact ⟨fun h other heq => Dim.fixed.inj heq ▸ h, fun h => h size rfl⟩
  | symbol name => exact ⟨fun _ size heq => (nomatch heq), fun _ => bounded_sized_symbol sizes name⟩

theorem Shape.bounded_sized_iff {s : Shape} {sizes : Env} :
    (s.sized sizes).Bounded ↔ ∀ size, .fixed size ∈ s.dims → size.toNat < 2 ^ 63 := by
  constructor
  · intro h size hmem
    exact Dim.bounded_sized_iff.1 (h _ (List.mem_map_of_mem hmem)) size rfl
  · intro h dim hdim
    obtain ⟨original, horiginal, rfl⟩ := List.mem_map.1 hdim
    exact Dim.bounded_sized_iff.2 fun size heq => h size (heq ▸ horiginal)

theorem Dim.Bounded.sized {dim : Dim} (h : dim.Bounded) (sizes : Env) : dim.sized sizes = dim := by
  cases dim with
  | fixed size => rfl
  | symbol name => exact h.elim

theorem Shape.Bounded.sized {s : Shape} (h : s.Bounded) (sizes : Env) : s.sized sizes = s := by
  have hdims : s.dims.map (Dim.sized sizes) = s.dims.map fun dim => dim :=
    List.map_congr_left fun dim hdim => (h dim hdim).sized sizes
  rw [Shape.sized, hdims, List.map_id']

theorem Shape.reduced_sized (s : Shape) (axes : List UInt64) (keepdim : Bool) (sizes : Env) :
    (s.reduced axes keepdim).sized sizes = (s.sized sizes).reduced axes keepdim := by
  have hdims : ((s.reduced axes keepdim).sized sizes).dims =
      ((s.sized sizes).reduced axes keepdim).dims := by
    rw [Shape.sized, Shape.reduced_dims, Shape.reduced_dims, map_collapse]
    rfl
  exact congrArg Shape.mk hdims

/-! ## Capture -/

/-- No dimension has the name of the variable of a loop around its own, where `k` is the number of
the outermost loop. -/
def Lowering.Uncaptured (stem : String) : Nat → List Dim → Prop
  | _, [] => True
  | k, _ :: dims => .symbol (loopVar stem k) ∉ dims ∧ Uncaptured stem (k + 1) dims

instance Lowering.decidableUncaptured (stem : String) :
    (k : Nat) → (dims : List Dim) → Decidable (Uncaptured stem k dims)
  | _, [] => isTrue trivial
  | k, _ :: dims =>
    have := decidableUncaptured stem (k + 1) dims
    inferInstanceAs (Decidable (.symbol (loopVar stem k) ∉ dims ∧ Uncaptured stem (k + 1) dims))

theorem uncaptured_of_bounded (stem : String) (k : Nat) {dims : List Dim}
    (h : ∀ dim ∈ dims, dim.Bounded) : Uncaptured stem k dims := by
  induction dims generalizing k with
  | nil => trivial
  | cons dim dims ih =>
      constructor
      · intro hsymbol
        exact h _ (List.mem_cons_of_mem _ hsymbol)
      · exact ih (k + 1) fun d hd => h d (List.mem_cons_of_mem _ hd)

theorem map_sized_update {v : String} {dims : List Dim} (h : .symbol v ∉ dims) (w : Int64)
    (sizes : Env) :
    dims.map (Dim.sized (Function.update sizes v w)) = dims.map (Dim.sized sizes) := by
  apply List.map_congr_left
  intro dim hdim
  cases dim with
  | fixed size => rfl
  | symbol name =>
      have hne : name ≠ v := fun heq => h (heq ▸ hdim)
      rw [Dim.sized, Dim.sized, Function.update_of_ne hne]

theorem count_extent {dim : Dim} {sizes : Env} (h : (dim.sized sizes).Bounded) (mem : Memory V) :
    (dim.extent.eval I sizes mem).word.toNatClampNeg = (dim.sized sizes).size := by
  cases dim with
  | fixed size => exact Int64.toNatClampNeg_ofNat_of_lt h
  | symbol name => exact (Dim.size_sized_symbol sizes name).symm

theorem trips_extent_sized {dim : Dim} {sizes : Env} (h : (dim.sized sizes).Bounded)
    (mem : Memory V) :
    Expr.trips 0 (dim.extent.eval I sizes mem).word = (dim.sized sizes).words := by
  rw [Expr.trips, count_extent h, Dim.words]
  apply List.map_congr_left
  intro k _
  exact Int64.zero_add _

theorem word_extent_symbol (name : String) (env : Env) (mem : Memory V) :
    ((Dim.symbol name).extent.eval I env mem).word = env name :=
  rfl

theorem eval_extent_congr {dim : Dim} {env sizes : Env}
    (h : ∀ name, dim = .symbol name → env name = sizes name) (mem : Memory V) :
    dim.extent.eval I env mem = dim.extent.eval I sizes mem := by
  cases dim with
  | fixed size => rfl
  | symbol name => rw [Dim.extent, Expr.eval, Expr.eval, h name rfl]

/-! ## The extents of a tree -/

namespace Expr

mutual

/-- The loops in statement position from the outside in, each with the variables of the loops around
it. Those around the tree itself are in `outer`. -/
def loopsWithin (outer : List String) : Expr → List (List String × Loop)
  | loop v _ extent marks body => (outer, ⟨v, extent, marks⟩) :: body.loopsWithin (v :: outer)
  | block ss => loopsWithinAll outer ss
  | _ => []

def loopsWithinAll (outer : List String) : List Expr → List (List String × Loop)
  | [] => []
  | s :: ss => s.loopsWithin outer ++ loopsWithinAll outer ss

end

end Expr

/-- The extent of a loop counts the places along a dimension, whatever values the variables of the
loops around it have. -/
def Loop.Spans (I : Interpretation V) (sizes : Env) (mem : Memory V) (l : List String × Loop)
    (dim : Dim) : Prop :=
  ∀ env : Env, (∀ v ∉ l.1, env v = sizes v) →
    (l.2.extent.eval I env mem).word.toNatClampNeg = (dim.sized sizes).size

/-- There is one loop for each dimension, in the same order, and its extent counts the places along
that dimension. -/
def Expr.ExtentsCount (I : Interpretation V) (tree : Expr) (dims : List Dim) (sizes : Env)
    (mem : Memory V) : Prop :=
  List.Forall₂ (Loop.Spans I sizes mem) (tree.loopsWithin []) dims

theorem forall_spans_iff {dim : Dim} (hfixed : ∀ size, .fixed size = dim → size.toNat < 2 ^ 63)
    (outer : List String) {l : Loop} (hextent : l.extent = dim.extent) (mem : Memory V) :
    (∀ sizes, Loop.Spans I sizes mem (outer, l) dim) ↔ ∀ v ∈ outer, .symbol v ≠ dim := by
  constructor
  · rintro h v hv rfl
    -- Inside the loop over `v` the variable can be one while the size is zero.
    have hinside := h (fun _ => 0) (Function.update (fun _ => 0) v 1) fun u hu =>
      Function.update_of_ne (fun heq : u = v => hu (heq ▸ hv)) _ _
    rw [hextent, word_extent_symbol, Function.update_self, Dim.size_sized_symbol] at hinside
    exact absurd hinside (by decide)
  · intro h sizes env henv
    have hbounded : (dim.sized sizes).Bounded := Dim.bounded_sized_iff.2 hfixed
    rw [hextent, eval_extent_congr fun name heq => henv name fun hmem => h name hmem heq.symm]
    exact count_extent hbounded mem

/-- The loops of a nest count the places along its dimensions for all sizes exactly if no dimension
has the name of a variable that is bound around its own loop. -/
theorem forall_forall₂_spans_iff {stem : String} (marks : Nat → LoopMarks) {body : Expr}
    (hbody : ∀ outer, body.loopsWithin outer = []) {dims : List Dim}
    (hfixed : ∀ size, .fixed size ∈ dims → size.toNat < 2 ^ 63) (k : Nat) (outer : List String)
    (mem : Memory V) :
    (∀ sizes, List.Forall₂ (Loop.Spans I sizes mem)
        ((nestFrom stem marks body k dims).loopsWithin outer) dims) ↔
      Uncaptured stem k dims ∧ ∀ v ∈ outer, .symbol v ∉ dims := by
  induction dims generalizing k outer with
  | nil => simp [nestFrom, hbody, Uncaptured]
  | cons dim dims ih =>
      have hloops : (nestFrom stem marks body k (dim :: dims)).loopsWithin outer =
          (outer, ⟨loopVar stem k, dim.extent, marks k⟩) ::
            (nestFrom stem marks body (k + 1) dims).loopsWithin (loopVar stem k :: outer) :=
        congrArg (List.cons _) (List.append_nil _)
      have hhead := forall_spans_iff (I := I)
        (fun size heq => hfixed size (heq ▸ List.mem_cons_self)) outer
        (l := ⟨loopVar stem k, dim.extent, marks k⟩) rfl mem
      have htail := ih (fun size hmem => hfixed size (List.mem_cons_of_mem _ hmem)) (k + 1)
        (loopVar stem k :: outer)
      simp only [hloops, List.forall₂_cons, forall_and, hhead, htail, Uncaptured, List.mem_cons,
        forall_eq_or_imp, not_or, ne_eq]
      tauto

/-- Nothing less than `Uncaptured` makes the extents of a nest count for all sizes. -/
theorem uncaptured_iff {stem : String} (marks : Nat → LoopMarks) {body : Expr}
    (hbody : ∀ outer, body.loopsWithin outer = []) {dims : List Dim}
    (hfixed : ∀ size, .fixed size ∈ dims → size.toNat < 2 ^ 63) (I : Interpretation V)
    (mem : Memory V) :
    Uncaptured stem 0 dims ↔
      ∀ sizes, (nestFrom stem marks body 0 dims).ExtentsCount I dims sizes mem := by
  have h : (∀ sizes, (nestFrom stem marks body 0 dims).ExtentsCount I dims sizes mem) ↔
      Uncaptured stem 0 dims ∧ ∀ v ∈ ([] : List String), .symbol v ∉ dims :=
    forall_forall₂_spans_iff marks hbody hfixed 0 [] mem
  rw [h]
  exact (and_iff_left fun v hv => nomatch hv).symm

/-! ## Free variables -/

theorem mem_freeVars_extent {v : String} {dim : Dim} :
    v ∈ dim.extent.freeVars ↔ dim = .symbol v := by
  cases dim with
  | fixed size => simp [Dim.extent, Expr.freeVars]
  | symbol name => simp [Dim.extent, Expr.freeVars, eq_comm]

theorem mem_freeVars_loopVars {stem v : String} {rank : Nat} :
    v ∈ Expr.freeVarsAll (loopVars stem rank) ↔ ∃ d < rank, v = loopVar stem d := by
  simp [Expr.mem_freeVarsAll, loopVars, Expr.freeVars]

theorem mem_freeVars_nestFrom {stem : String} (marks : Nat → LoopMarks) (body : Expr) {k : Nat}
    {dims : List Dim} (h : Uncaptured stem k dims) {v : String} :
    v ∈ (nestFrom stem marks body k dims).freeVars ↔
      .symbol v ∈ dims ∨
        v ∈ body.freeVars ∧ ∀ d, k ≤ d → d < k + dims.length → v ≠ loopVar stem d := by
  induction dims generalizing k with
  | nil =>
      rw [nestFrom]
      constructor
      · intro hv
        refine .inr ⟨hv, fun d hle hlt => ?_⟩
        rw [List.length_nil] at hlt
        omega
      · rintro (hnone | ⟨hv, _⟩)
        · cases hnone
        · exact hv
  | cons dim dims ih =>
      obtain ⟨hhead, hrest⟩ := h
      have hbound : (∀ d, k ≤ d → d < k + (dim :: dims).length → v ≠ loopVar stem d) ↔
          v ≠ loopVar stem k ∧
            ∀ d, k + 1 ≤ d → d < k + 1 + dims.length → v ≠ loopVar stem d := by
        rw [List.length_cons]
        constructor
        · intro hall
          refine ⟨hall k (Nat.le_refl k) (by omega), fun d hle hlt => hall d (by omega) (by omega)⟩
        · rintro ⟨hk, hall⟩ d hle hlt
          rcases Nat.eq_or_lt_of_le hle with heq | hgt
          · rw [← heq]
            exact hk
          · exact hall d hgt (by omega)
      have hne : .symbol v ∈ dims → v ≠ loopVar stem k := by
        intro hsymbol heq
        exact hhead (heq ▸ hsymbol)
      simp only [nestFrom, Expr.freeVars, Expr.freeVarsAll, List.nil_append, List.append_nil,
        List.mem_append, List.mem_filter, bne_iff_ne, ne_eq, mem_freeVars_extent, ih hrest, hbound,
        List.mem_cons]
      constructor
      · rintro (heq | ⟨hsymbol | ⟨hbody, hall⟩, hk⟩)
        · exact .inl (.inl heq.symm)
        · exact .inl (.inr hsymbol)
        · exact .inr ⟨hbody, hk, hall⟩
      · rintro ((heq | hsymbol) | ⟨hbody, hk, hall⟩)
        · exact .inl heq.symm
        · exact .inr ⟨.inl hsymbol, hne hsymbol⟩
        · exact .inr ⟨.inr ⟨hbody, hall⟩, hk⟩

theorem mem_freeVars_nest {stem : String} (marks : Nat → LoopMarks) {body : Expr} {dims : List Dim}
    (h : Uncaptured stem 0 dims)
    (hbody : ∀ v ∈ body.freeVars, ∃ d < dims.length, v = loopVar stem d) {v : String} :
    v ∈ (nestFrom stem marks body 0 dims).freeVars ↔ .symbol v ∈ dims := by
  rw [mem_freeVars_nestFrom marks body h]
  apply or_iff_left
  rintro ⟨hv, hall⟩
  obtain ⟨d, hd, heq⟩ := hbody v hv
  exact hall d (Nat.zero_le d) (by omega) heq

theorem freeVars_identity (kind : ReductionKind) (element : ElementType) :
    (kind.identity element).freeVars = [] :=
  ReductionKind.identity_induct (fun _ => rfl) (fun _ => rfl) (fun _ => rfl) kind element

theorem mem_freeVars_initNest {result : TensorHeader} (kind : ReductionKind)
    (h : Uncaptured resultStem 0 result.shape.dims) {v : String} :
    v ∈ (initNest result kind).freeVars ↔ .symbol v ∈ result.shape.dims := by
  apply mem_freeVars_nest _ h
  intro v hv
  rw [Expr.freeVars, freeVars_identity, List.append_nil] at hv
  exact mem_freeVars_loopVars.1 hv

theorem mem_freeVars_combineNest (result : TensorHeader) (kind : ReductionKind) {source : Tensor}
    (axes : List UInt64) (keepdim : Bool) (h : Uncaptured sourceStem 0 source.shape.dims)
    {v : String} :
    v ∈ (combineNest result kind source axes keepdim).freeVars ↔ .symbol v ∈ source.shape.dims := by
  apply mem_freeVars_nest _ h
  intro v hv
  have hplace (hmem : v ∈ Expr.freeVarsAll (resultIndices axes keepdim source.rank)) :
      ∃ d < source.shape.dims.length, v = loopVar sourceStem d := by
    obtain ⟨e, he, hve⟩ := Expr.mem_freeVarsAll.1 hmem
    rcases mem_resultIndices he with rfl | hvar
    · rw [Expr.freeVars] at hve
      cases hve
    · exact mem_freeVars_loopVars.1 (Expr.mem_freeVarsAll.2 ⟨e, hvar, hve⟩)
  simp only [combineStep, Expr.freeVars, List.mem_append] at hv
  rcases hv with hstored | hloaded | hread
  · exact hplace hstored
  · exact hplace hloaded
  · exact mem_freeVars_loopVars.1 hread

/-! ## Accesses of a nest -/

theorem loadsAll_eq_nil {es : List Expr} {env : Env} {mem : Memory V}
    (h : ∀ e ∈ es, e.loads I env mem = []) : Expr.loadsAll I env mem es = [] := by
  rw [Expr.loadsAll_eq, List.flatMap_eq_nil_iff]
  exact h

theorem loads_extent (dim : Dim) (env : Env) (mem : Memory V) :
    dim.extent.loads I env mem = [] := by
  cases dim with
  | fixed size => rw [Dim.extent, Expr.loads]
  | symbol name => rw [Dim.extent, Expr.loads]

/-- A nest makes the accesses of its body once for every place of the sized dimensions, in order, if
these accesses do not depend on the memory. -/
theorem accesses_nestFrom {stem : String} (marks : Nat → LoopMarks) {body : Expr} {k : Nat}
    {dims : List Dim} (h : Uncaptured stem k dims) {sizes : Env}
    (hbounded : ∀ dim ∈ dims, (dim.sized sizes).Bounded) {f : Index → List Access}
    (hbody : ∀ i ∈ places (dims.map (Dim.sized sizes)), ∀ m : Memory V,
      body.accesses I (nestEnv stem k i sizes) m = f i) (mem : Memory V) :
    (nestFrom stem marks body k dims).accesses I sizes mem =
      (places (dims.map (Dim.sized sizes))).flatMap f := by
  induction dims generalizing k sizes f mem with
  | nil =>
      rw [nestFrom, List.map_nil, places, List.flatMap_singleton]
      exact hbody [] (List.mem_singleton_self []) mem
  | cons dim dims ih =>
      obtain ⟨hhead, hrest⟩ := h
      have hdim : (dim.sized sizes).Bounded := hbounded dim List.mem_cons_self
      have hsizes (w : Int64) := map_sized_update hhead w sizes
      have hinner : ∀ w ∈ (dim.sized sizes).words, ∀ m : Memory V,
          (Expr.block [nestFrom stem marks body (k + 1) dims]).accesses I
              (Function.update sizes (loopVar stem k) w) m =
            (places (dims.map (Dim.sized sizes))).flatMap fun i => f (w :: i) := by
        intro w hw m
        rw [Expr.accesses, Expr.accessesAll_singleton, ← hsizes w]
        apply ih hrest
        · intro d hd
          have hsame := map_sized_update hhead w sizes
          have hsized : d.sized (Function.update sizes (loopVar stem k) w) = d.sized sizes :=
            List.map_inj_left.1 hsame d hd
          rw [hsized]
          exact hbounded d (List.mem_cons_of_mem _ hd)
        · intro i hi m
          rw [hsizes w] at hi
          exact hbody (w :: i) (cons_mem_places.2 ⟨hw, hi⟩) m
      have hwords : Expr.trips ((Expr.int 0).eval I sizes mem).word
          (dim.extent.eval I sizes mem).word = (dim.sized sizes).words :=
        trips_extent_sized hdim mem
      rw [nestFrom, Expr.accesses, Expr.loads, loads_extent, List.nil_append, List.nil_append,
        hwords, Expr.logged_eq_flatMap hinner, List.map_cons, places, List.flatMap_assoc]
      apply List.flatMap_congr
      intro w _
      rw [List.flatMap_map]

theorem loads_loopVars (stem : String) (rank : Nat) (env : Env) (mem : Memory V) :
    Expr.loadsAll I env mem (loopVars stem rank) = [] := by
  apply loadsAll_eq_nil
  intro e he
  obtain ⟨d, _, rfl⟩ := List.mem_map.1 he
  rw [Expr.loads]

theorem loads_resultIndices (axes : List UInt64) (keepdim : Bool) (rank : Nat) (env : Env)
    (mem : Memory V) : Expr.loadsAll I env mem (resultIndices axes keepdim rank) = [] := by
  apply loadsAll_eq_nil
  intro e he
  rcases mem_resultIndices he with rfl | hvar
  · rw [Expr.loads]
  · obtain ⟨d, _, rfl⟩ := List.mem_map.1 hvar
    rw [Expr.loads]

theorem loads_identity (kind : ReductionKind) (element : ElementType) (env : Env)
    (mem : Memory V) : (kind.identity element).loads I env mem = [] :=
  ReductionKind.identity_induct (fun _ => rfl) (fun _ => rfl) (fun _ => rfl) kind element

theorem accesses_initNest {result : TensorHeader} (kind : ReductionKind)
    (h : Uncaptured resultStem 0 result.shape.dims) {sizes : Env}
    (hbounded : (result.shape.sized sizes).Bounded) (mem : Memory V) :
    (initNest result kind).accesses I sizes mem =
      (result.shape.sized sizes).indices.flatMap fun o => [.store result.name o] := by
  apply accesses_nestFrom _ h fun dim hdim => hbounded _ (List.mem_map_of_mem hdim)
  intro o ho m
  have hrank : result.shape.rank = o.length := by
    rw [length_of_mem_places ho, List.length_map]
    rfl
  rw [Expr.accesses, loads_loopVars, loads_identity, hrank, evalIndex_loopVars]
  rfl

/-- What one step of the second nest reads and writes at place `i` of the source. -/
def Lowering.stepAccesses (result source : String) (axes : List UInt64) (keepdim : Bool)
    (i : Index) : List Access :=
  [.load result (collapse axes keepdim 0 i), .load source i,
    .store result (collapse axes keepdim 0 i)]

theorem accesses_combineNest (result : TensorHeader) (kind : ReductionKind) {source : Tensor}
    (axes : List UInt64) (keepdim : Bool) (h : Uncaptured sourceStem 0 source.shape.dims)
    {sizes : Env} (hbounded : (source.shape.sized sizes).Bounded) (mem : Memory V) :
    (combineNest result kind source axes keepdim).accesses I sizes mem =
      (source.shape.sized sizes).indices.flatMap
        (stepAccesses result.name source.name axes keepdim) := by
  apply accesses_nestFrom _ h fun dim hdim => hbounded _ (List.mem_map_of_mem hdim)
  intro i hi m
  have hrank : source.rank = i.length := by
    rw [length_of_mem_places hi, List.length_map]
    rfl
  rw [combineStep, Expr.accesses, Expr.loads, Expr.loads, Expr.loads, hrank, loads_resultIndices,
    loads_loopVars, evalIndex_resultIndices, evalIndex_loopVars]
  rfl

theorem accesses_nests {result : TensorHeader} (kind : ReductionKind) {source : Tensor}
    (axes : List UInt64) (keepdim : Bool) (hresult : Uncaptured resultStem 0 result.shape.dims)
    (hsource : Uncaptured sourceStem 0 source.shape.dims) {sizes : Env}
    (hresultBounded : (result.shape.sized sizes).Bounded)
    (hsourceBounded : (source.shape.sized sizes).Bounded) (mem : Memory V) :
    (Expr.block [initNest result kind, combineNest result kind source axes keepdim]).accesses
        I sizes mem =
      ((result.shape.sized sizes).indices.flatMap fun o => [.store result.name o]) ++
        (source.shape.sized sizes).indices.flatMap
          (stepAccesses result.name source.name axes keepdim) := by
  rw [Expr.accesses, Expr.accessesAll, Expr.accessesAll_singleton,
    accesses_initNest kind hresult hresultBounded,
    accesses_combineNest result kind axes keepdim hsource hsourceBounded]

theorem accesses_lowered {x : Tensor} {kind : ReductionKind} {axes : List UInt64} {keepdim : Bool}
    {name : String} {tree : Expr} (htree : (x.reduce kind axes keepdim name).lower = .ok tree)
    (hbounded : x.shape.Bounded) (env : Env) (mem : Memory V) :
    tree.accesses I env mem =
      ((x.shape.reduced axes keepdim).indices.flatMap fun o => [.store name o]) ++
        x.shape.indices.flatMap (stepAccesses name x.name axes keepdim) := by
  have hresult : (x.shape.reduced axes keepdim).Bounded := hbounded.reduced axes keepdim
  have hresultSized : (x.shape.reduced axes keepdim).sized env = x.shape.reduced axes keepdim :=
    hresult.sized env
  have hsourceSized : x.shape.sized env = x.shape := hbounded.sized env
  have hresultUncaptured : Uncaptured resultStem 0 (x.shape.reduced axes keepdim).dims :=
    uncaptured_of_bounded resultStem 0 hresult
  have hsourceUncaptured : Uncaptured sourceStem 0 x.shape.dims :=
    uncaptured_of_bounded sourceStem 0 hbounded
  obtain rfl := Except.ok.inj htree
  refine (accesses_nests kind axes keepdim hresultUncaptured hsourceUncaptured ?_ ?_ mem).trans ?_
  · exact hresultSized.symm ▸ hresult
  · exact hsourceSized.symm ▸ hbounded
  · rw [hresultSized, hsourceSized]

/-! ## The whole reduction -/

theorem extentsCount_nests {result : TensorHeader} (kind : ReductionKind) {source : Tensor}
    (axes : List UInt64) (keepdim : Bool) (hresult : Uncaptured resultStem 0 result.shape.dims)
    (hsource : Uncaptured sourceStem 0 source.shape.dims) {sizes : Env}
    (hresultBounded : (result.shape.sized sizes).Bounded)
    (hsourceBounded : (source.shape.sized sizes).Bounded) (mem : Memory V) :
    (Expr.block [initNest result kind, combineNest result kind source axes keepdim]).ExtentsCount
      I (result.shape.dims ++ source.shape.dims) sizes mem := by
  have hinit : (initNest result kind).ExtentsCount I result.shape.dims sizes mem :=
    (uncaptured_iff _ (fun _ => rfl) (Shape.bounded_sized_iff.1 hresultBounded) I mem).1 hresult
      sizes
  have hcombine : (combineNest result kind source axes keepdim).ExtentsCount I source.shape.dims
      sizes mem :=
    (uncaptured_iff _ (fun _ => rfl) (Shape.bounded_sized_iff.1 hsourceBounded) I mem).1 hsource
      sizes
  rw [Expr.ExtentsCount, Expr.loopsWithin, Expr.loopsWithinAll, Expr.loopsWithinAll,
    Expr.loopsWithinAll, List.append_nil]
  exact List.rel_append hinit hcombine

/-- If no symbol is captured, the lowered reduction takes exactly the symbols of the two shapes from
its surroundings. Whatever sizes they have, each of its loops has an extent that counts the places
along the loop's own dimension, whatever the loops around it have got to, and the two nests walk
over the index spaces of the sized shapes. -/
theorem lower_reduce_symbols (I : Interpretation V) (x : Tensor) (kind : ReductionKind)
    (axes : List UInt64) (keepdim : Bool) (name : String)
    (hresult : Uncaptured resultStem 0 (x.shape.reduced axes keepdim).dims)
    (hsource : Uncaptured sourceStem 0 x.shape.dims) :
    ∃ tree, (x.reduce kind axes keepdim name).lower = .ok tree ∧
      (∀ v, v ∈ tree.freeVars ↔
        .symbol v ∈ (x.shape.reduced axes keepdim).dims ∨ .symbol v ∈ x.shape.dims) ∧
      ∀ (sizes : Env) (mem : Memory V), (x.shape.sized sizes).Bounded →
        tree.ExtentsCount I ((x.shape.reduced axes keepdim).dims ++ x.shape.dims) sizes mem ∧
        tree.accesses I sizes mem =
          (((x.shape.reduced axes keepdim).sized sizes).indices.flatMap fun o =>
            [.store name o]) ++
          (x.shape.sized sizes).indices.flatMap (stepAccesses name x.name axes keepdim) := by
  obtain ⟨tree, htree⟩ := x.lower_reduce kind axes keepdim name
  refine ⟨tree, htree, ?_, fun sizes mem hbounded => ?_⟩
  · intro v
    obtain rfl := Except.ok.inj htree
    rw [Expr.freeVars, Expr.freeVarsAll, Expr.freeVarsAll, Expr.freeVarsAll, List.append_nil,
      List.mem_append, mem_freeVars_initNest kind hresult,
      mem_freeVars_combineNest _ kind axes keepdim hsource]
  · have hresultBounded : ((x.shape.reduced axes keepdim).sized sizes).Bounded := by
      rw [Shape.reduced_sized]
      exact hbounded.reduced axes keepdim
    obtain rfl := Except.ok.inj htree
    constructor
    · exact extentsCount_nests kind axes keepdim hresult hsource hresultBounded hbounded mem
    · exact accesses_nests kind axes keepdim hresult hsource hresultBounded hbounded mem

/-- The first symbol has the name of the innermost loop variable, but its own loop is outside. -/
def ragged : Tensor :=
  .input ⟨"x", ⟨[.symbol "i2", .fixed 3, .symbol "n"]⟩, .int32⟩

theorem lower_reduce_symbols_ragged :
    Uncaptured resultStem 0 (ragged.shape.reduced [1] false).dims ∧
      Uncaptured sourceStem 0 ragged.shape.dims ∧
      ∃ tree, (ragged.reduce .sum [1] false "y").lower = .ok tree ∧
        (∀ v, v ∈ tree.freeVars ↔ v = "i2" ∨ v = "n") ∧
        ∀ mem, (tree.accesses exactIntegers (fun _ => 2) mem).length = 2 * 2 + 3 * (2 * 3 * 2) := by
  have hresult : Uncaptured resultStem 0 (ragged.shape.reduced [1] false).dims := by decide
  have hsource : Uncaptured sourceStem 0 ragged.shape.dims := by decide
  obtain ⟨tree, htree, hfree, hrun⟩ :=
    lower_reduce_symbols exactIntegers ragged .sum [1] false "y" hresult hsource
  refine ⟨hresult, hsource, tree, htree, fun v => ?_, fun mem => ?_⟩
  · have hdims : (ragged.shape.reduced [1] false).dims = [.symbol "i2", .symbol "n"] := by decide
    rw [hfree, hdims]
    simp [ragged, Tensor.shape, Tensor.header]
  · have hfixed : ∀ size, Dim.fixed size ∈ ragged.shape.dims → size.toNat < 2 ^ 63 := by
      simp [ragged, Tensor.shape, Tensor.header]
    obtain ⟨_, haccesses⟩ := hrun (fun _ => 2) mem (Shape.bounded_sized_iff.2 hfixed)
    rw [haccesses]
    decide

/-- The loop over the first dimension binds the name of the second one. -/
def capturing : Tensor :=
  .input ⟨"x", ⟨[.fixed 4, .symbol "i0"]⟩, .int32⟩

def oversized : Tensor :=
  .input ⟨"x", ⟨[.fixed 9223372036854775808]⟩, .int32⟩

/-- A captured symbol is not free, and the inner loop runs as often as the outer one has run before.
A loop over a dimension of size `2 ^ 63` does not run at all. -/
theorem lower_reduce_symbols_ne :
    (∃ tree, (capturing.reduce .sum [1] false "y").lower = .ok tree ∧
      ¬ (∀ v, v ∈ tree.freeVars ↔
        .symbol v ∈ (capturing.shape.reduced [1] false).dims ∨ .symbol v ∈ capturing.shape.dims) ∧
      ¬ tree.ExtentsCount exactIntegers
        ((capturing.shape.reduced [1] false).dims ++ capturing.shape.dims) (fun _ => 3)
        (fun _ _ => 0) ∧
      tree.accesses exactIntegers (fun _ => 3) (fun _ _ => 0) ≠
        (((capturing.shape.reduced [1] false).sized fun _ => 3).indices.flatMap fun o =>
          [.store "y" o]) ++
        (capturing.shape.sized fun _ => 3).indices.flatMap (stepAccesses "y" "x" [1] false)) ∧
    ∃ tree, (oversized.reduce .sum [0] false "y").lower = .ok tree ∧
      ¬ tree.ExtentsCount exactIntegers
        ((oversized.shape.reduced [0] false).dims ++ oversized.shape.dims) (fun _ => 0)
        (fun _ _ => 0) := by
  refine ⟨⟨_, rfl, ?_, ?_, ?_⟩, _, rfl, ?_⟩
  · intro h
    have hfree := (h "i0").2 (by decide)
    revert hfree
    decide
  · intro h
    -- The innermost loop, in the round of the outer one in which its variable is 2.
    have hcount := List.Forall₂.get h (i := 2) (by decide) (by decide)
      (Function.update (fun _ => 3) "i0" 2) fun v hv =>
        Function.update_of_ne (fun heq => hv (List.mem_singleton.2 heq)) _ _
    revert hcount
    decide
  · decide
  · intro h
    have hcount := List.Forall₂.get h (i := 1) (by decide) (by decide) (fun _ => 0) fun _ _ => rfl
    revert hcount
    decide

end Reductions
