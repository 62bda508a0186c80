import Mathlib.Data.Nat.Init
import Reductions.Proofs.Iterations
import Reductions.Proofs.Merging
import Reductions.Proofs.Pipeline

/-!
# Reduction marks

In the second nest of a lowered reduction the unmarked loops decide which element
of the result an iteration stores to, and the marked ones have no part in it. So
the iterations of an unmarked loop never meet, and those of a marked loop always
do. In the first nest no loop is marked and no two iterations meet. Removing the
loops that run once changes none of this.
-/

namespace Reductions

open Lowering

variable {V : Type} {I : Interpretation V}

/-! ## What decides the place in the result -/

theorem project_eq_project_iff {α : Type} (reduced : Nat → Bool) (keepdim : Bool) (unit : α)
    {xs ys : List α} (h : xs.length = ys.length) :
    project reduced keepdim unit xs = project reduced keepdim unit ys ↔
      ∀ d : Nat, reduced d = false → xs[d]? = ys[d]? := by
  induction xs generalizing reduced ys with
  | nil =>
      have hys : ys = [] := List.length_eq_zero_iff.1 h.symm
      rw [hys]
      exact iff_of_true rfl fun _ _ => rfl
  | cons x xs ih =>
      cases ys with
      | nil => cases h
      | cons y ys =>
          have htail := ih (fun d => reduced (d + 1)) (Nat.succ.inj h)
          rw [← Nat.and_forall_add_one, project, project]
          by_cases hreduced : reduced 0
          · rw [if_pos hreduced, if_pos hreduced, List.append_cancel_left_eq, htail]
            simp [hreduced]
          · rw [if_neg hreduced, if_neg hreduced, List.singleton_append, List.singleton_append,
              List.cons.injEq, htail]
            simp [hreduced]

theorem collapse_eq_collapse_iff {α : Type} {axes : List UInt64} {keepdim : Bool} {unit : α}
    {xs ys : List α} (h : xs.length = ys.length) :
    collapse axes keepdim unit xs = collapse axes keepdim unit ys ↔
      ∀ d : Nat, containsAxis axes d = false → xs[d]? = ys[d]? := by
  rw [← project_eq_project_iff _ keepdim unit h, collapse, collapse]
  have hlength := length_project_congr (containsAxis axes) keepdim unit unit h
  -- An entry is made up for both or for neither.
  cases hxs : project (containsAxis axes) keepdim unit xs with
  | nil =>
      rw [hxs] at hlength
      rw [List.length_eq_zero_iff.1 hlength.symm]
      exact iff_of_true rfl rfl
  | cons a as =>
      cases hys : project (containsAxis axes) keepdim unit ys with
      | nil =>
          rw [hxs, hys] at hlength
          cases hlength
      | cons b bs => rfl

/-! ## The iterations of a nest -/

namespace Lowering

variable {stem : String} {marks : Nat → LoopMarks} {dims : List Dim}

def nestLoops (stem : String) (marks : Nat → LoopMarks) (k : Nat) (dims : List Dim) : List Loop :=
  (dims.zipIdx k).map fun (dim, d) => ⟨loopVar stem d, dim.extent, marks d⟩

theorem getElem?_nestLoops (k d : Nat) :
    (nestLoops stem marks k dims)[d]? =
      dims[d]?.map fun dim => ⟨loopVar stem (k + d), dim.extent, marks (k + d)⟩ := by
  rw [nestLoops, List.getElem?_map, List.getElem?_zipIdx, Option.map_map]
  rfl

theorem length_nestLoops (k : Nat) : (nestLoops stem marks k dims).length = dims.length := by
  rw [nestLoops, List.length_map, List.length_zipIdx]

theorem loops_nestFrom {body : Expr} (h : body.loops = []) (k : Nat) :
    (nestFrom stem marks body k dims).loops = nestLoops stem marks k dims := by
  induction dims generalizing k with
  | nil => exact h
  | cons dim dims ih =>
      rw [nestFrom, Expr.loops, Expr.loops, Expr.loopsAll, Expr.loopsAll, List.append_nil, ih]
      rfl

theorem names_nestLoops_nodup (k : Nat) :
    ((nestLoops stem marks k dims).map Loop.name).Nodup := by
  have hnames : (nestLoops stem marks k dims).map Loop.name =
      (List.range' k dims.length).map (loopVar stem) := by
    rw [nestLoops, List.map_map, ← List.zipIdx_map_snd, List.map_map]
    rfl
  rw [hnames]
  exact List.Nodup.map (loopVar_injective stem) List.nodup_range'

def nestIteration (stem : String) (marks : Nat → LoopMarks) (k : Nat) (dims : List Dim)
    (tensor : String) (place : Index → Index) (i : Index) : Iteration :=
  ⟨List.zipWith Trip.mk (nestLoops stem marks k dims) i, tensor, place i⟩

theorem iterations_nestFrom {tensor : String} {indices : List Expr} {value : Expr}
    (hdims : ∀ dim ∈ dims, dim.Bounded) (k : Nat) (env : Env) (mem : Memory V)
    (place : Index → Index) (hplace : ∀ i : Index, i.length = dims.length → ∀ m,
      Expr.evalIndex I (nestEnv stem k i env) m indices = place i) :
    (nestFrom stem marks (.store tensor indices value) k dims).iterations I env mem =
      (places dims).map (nestIteration stem marks k dims tensor place) := by
  induction dims generalizing k env mem place with
  | nil =>
      have hindex := hplace [] rfl mem
      rw [nestEnv] at hindex
      rw [nestFrom, Expr.iterations, hindex]
      rfl
  | cons dim dims ih =>
      rw [nestFrom, Expr.iterations, places, List.map_flatMap]
      change (Expr.visited _ (Expr.trips 0 _) mem).flatMap _ = _
      rw [trips_extent (hdims dim List.mem_cons_self)]
      refine Expr.flatMap_visited (fun w _ m => ?_) mem
      have hinner := ih (fun d hd => hdims d (List.mem_cons_of_mem _ hd)) (k + 1)
        (Function.update env (loopVar stem k) w) m (fun i => place (w :: i))
        fun i hi => hplace (w :: i) (congrArg Nat.succ hi)
      simp only [Expr.iterations, Expr.iterationsAll_singleton, hinner, List.map_map]
      rfl

/-- A size that no signed word holds becomes a negative extent, and the nest does nothing. -/
theorem iterations_nestFrom_of_not_bounded (hfixed : ∀ dim ∈ dims, dim.isFixed = true) {dim : Dim}
    (hdim : dim ∈ dims) (h : ¬ dim.Bounded) (body : Expr) (k : Nat) (env : Env) (mem : Memory V) :
    (nestFrom stem marks body k dims).iterations I env mem = [] := by
  induction dims generalizing k env mem with
  | nil => cases hdim
  | cons first dims ih =>
      rw [nestFrom, Expr.iterations]
      change (Expr.visited _ (Expr.trips 0 (first.extent.eval I env mem).word) mem).flatMap _ = []
      rcases List.mem_cons.1 hdim with rfl | hrest
      · have hnone : Expr.trips 0 (dim.extent.eval I env mem).word = [] := by
          cases dim with
          | symbol name => exact absurd (hfixed _ List.mem_cons_self) Bool.false_ne_true
          | fixed size =>
              have hcount : (Int64.ofNat size.toNat).toNatClampNeg = 0 := by
                have hbig : ¬ size.toNat < 2 ^ 63 := h
                have hword := size.toNat_lt
                rw [Int64.toNatClampNeg, Int64.toInt_ofNat', Int.bmod_def]
                have hsize : Int64.size = 2 ^ 64 := rfl
                rw [hsize]
                split <;> omega
              change Expr.trips 0 (Int64.ofNat size.toNat) = []
              rw [Expr.trips, hcount]
              rfl
        rw [hnone]
        rfl
      · rw [List.flatMap_eq_nil_iff]
        rintro ⟨m, w⟩ _
        have hinner := ih (fun d hd => hfixed d (List.mem_cons_of_mem _ hd)) hrest (k + 1)
          (Function.update env (loopVar stem k) w) m
        simp only [Expr.iterations, Expr.iterationsAll_singleton, hinner, List.map_nil]

variable (marks) in
theorem exists_iterations_nestFrom (hfixed : ∀ dim ∈ dims, dim.isFixed = true) (tensor : String)
    {indices : List Expr} (value : Expr) {place : Index → Index}
    (hplace : ∀ i : Index, i.length = dims.length → ∀ env m,
      Expr.evalIndex I (nestEnv stem 0 i env) m indices = place i) :
    ∃ is : List Index, is.Nodup ∧ (∀ i ∈ is, i ∈ places dims) ∧ ∀ env mem,
      (nestFrom stem marks (.store tensor indices value) 0 dims).iterations I env mem =
        is.map (nestIteration stem marks 0 dims tensor place) := by
  by_cases hdims : ∀ dim ∈ dims, dim.Bounded
  · exact ⟨places dims, places_nodup hdims, fun _ h => h, fun env mem =>
      iterations_nestFrom hdims 0 env mem place fun i hi m => hplace i hi env m⟩
  · obtain ⟨dim, hdim, hunbounded⟩ : ∃ dim ∈ dims, ¬ dim.Bounded := by
      simpa using hdims
    refine ⟨[], .nil, ?_, fun env mem =>
      iterations_nestFrom_of_not_bounded hfixed hdim hunbounded _ 0 env mem⟩
    exact fun i hi => absurd hi List.not_mem_nil

theorem mem_trips_nestIteration {tensor : String} {place : Index → Index} {i : Index} {s : Trip} :
    s ∈ (nestIteration stem marks 0 dims tensor place i).trips ↔
      ∃ (d : Nat) (dim : Dim) (w : Int64), dims[d]? = some dim ∧ i[d]? = some w ∧
        s = ⟨⟨loopVar stem d, dim.extent, marks d⟩, w⟩ := by
  rw [nestIteration, List.mem_iff_getElem?]
  simp only [List.getElem?_zipWith_eq_some, getElem?_nestLoops, Option.map_eq_some_iff,
    Nat.zero_add]
  constructor
  · rintro ⟨d, _, w, ⟨dim, hdim, rfl⟩, hw, rfl⟩
    exact ⟨d, dim, w, hdim, hw, rfl⟩
  · rintro ⟨d, dim, w, hdim, hw, rfl⟩
    exact ⟨d, _, w, ⟨dim, hdim, rfl⟩, hw, rfl⟩

end Lowering

/-! ## Agreement on unmarked loops -/

def Loop.Marked (l : Loop) : Prop :=
  l.marks.isReduction = true

/-- The iterations differ at most in the variables of marked loops. -/
def Iteration.Agree (a b : Iteration) : Prop :=
  ∀ s ∈ a.trips, ∀ t ∈ b.trips, s.loop = t.loop → ¬ s.loop.Marked → s.value = t.value

theorem Iteration.agree_surviving_iff {a b : Iteration}
    (h : ∀ s ∈ a.trips, ∀ t ∈ b.trips, s.loop = t.loop → s.loop.isUnit = true →
      s.value = t.value) : a.surviving.Agree b.surviving ↔ a.Agree b := by
  constructor
  · intro hagree s hs t ht hloop hmarked
    by_cases hunit : s.loop.isUnit = true
    · exact h s hs t ht hloop hunit
    · have hs' : s ∈ a.surviving.trips := List.mem_filter.2 ⟨hs, by simpa using hunit⟩
      have ht' : t ∈ b.surviving.trips := List.mem_filter.2 ⟨ht, by simpa [← hloop] using hunit⟩
      exact hagree s hs' t ht' hloop hmarked
  · intro hagree s hs t ht
    exact hagree s (List.mem_of_mem_filter hs) t (List.mem_of_mem_filter ht)

namespace Lowering

variable {stem : String} {marks : Nat → LoopMarks} {dims : List Dim} {tensor : String}
  {place : Index → Index} {i j : Index}

theorem agree_nestIteration_iff (hi : i.length = dims.length) (hj : j.length = dims.length) :
    (nestIteration stem marks 0 dims tensor place i).Agree
        (nestIteration stem marks 0 dims tensor place j) ↔
      ∀ d : Nat, (marks d).isReduction = false → i[d]? = j[d]? := by
  constructor
  · intro hagree d hmarks
    by_cases hd : d < dims.length
    · have hdim := List.getElem?_eq_getElem hd
      have hi' := List.getElem?_eq_getElem (hi ▸ hd)
      have hj' := List.getElem?_eq_getElem (hj ▸ hd)
      have hvalue := hagree _ (mem_trips_nestIteration.2 ⟨d, _, _, hdim, hi', rfl⟩) _
        (mem_trips_nestIteration.2 ⟨d, _, _, hdim, hj', rfl⟩) rfl (by simp [Loop.Marked, hmarks])
      rw [hi', hj']
      exact congrArg some hvalue
    · rw [List.getElem?_eq_none (by omega), List.getElem?_eq_none (by omega)]
  · intro h s hs t ht hloop hmarked
    obtain ⟨d, dim, w, _, hw, rfl⟩ := mem_trips_nestIteration.1 hs
    obtain ⟨d', dim', w', _, hw', rfl⟩ := mem_trips_nestIteration.1 ht
    -- The variable tells which dimension a loop runs over.
    obtain rfl : d = d' := loopVar_injective stem (congrArg Loop.name hloop)
    have hsame := h d (by simpa [Loop.Marked] using hmarked)
    rw [hw, hw'] at hsame
    exact Option.some.inj hsame

theorem value_of_isUnit (hi : i ∈ places dims) {s : Trip}
    (hs : s ∈ (nestIteration stem marks 0 dims tensor place i).trips)
    (hunit : s.loop.isUnit = true) : s.value = 0 := by
  obtain ⟨d, dim, w, hdim, hw, rfl⟩ := mem_trips_nestIteration.1 hs
  have hword : w ∈ dim.words := by
    obtain ⟨hdlt, rfl⟩ := List.getElem?_eq_some_iff.1 hdim
    obtain ⟨hwlt, rfl⟩ := List.getElem?_eq_some_iff.1 hw
    exact (mem_places.1 hi).get hwlt hdlt
  have hextent : dim.extent.asInt? = some 1 := of_decide_eq_true hunit
  rw [Dim.asInt?_extent_eq_one_iff.1 hextent, Dim.words_fixed_one] at hword
  exact List.mem_singleton.1 hword

end Lowering

/-! ## Nests -/

namespace Expr

/-- The loops have different variables, and each iteration goes through all of them and stores to
`tensor`. -/
def Perfect (nest : Expr) (I : Interpretation V) (tensor : String) : Prop :=
  (nest.loops.map Loop.name).Nodup ∧ ∀ env mem, ∀ a ∈ nest.iterations I env mem,
    a.tensor = tensor ∧ a.trips.map Trip.loop = nest.loops

/-- Two iterations store to the same element if and only if they differ at most in the variables of
marked loops. -/
def MarksCarried (nest : Expr) (I : Interpretation V) : Prop :=
  ∀ env mem, ∀ a ∈ nest.iterations I env mem, ∀ b ∈ nest.iterations I env mem,
    a.place = b.place ↔ a.Agree b

/-- No loop is marked, and no two iterations store to the same element. -/
def Parallel (nest : Expr) (I : Interpretation V) : Prop :=
  (∀ l ∈ nest.loops, ¬ l.Marked) ∧
    ∀ env mem, ((nest.iterations I env mem).map Iteration.place).Nodup

variable {nest : Expr}

theorem Perfect.simplify {tensor : String} (h : nest.Perfect I tensor) (hsettled : Settled nest)
    (hcounted : nest.Counted) : nest.simplify.Perfect I tensor := by
  rw [Perfect, hsettled.loops_simplify hcounted]
  refine ⟨h.1.sublist (List.filter_sublist.map _), fun env mem a ha => ?_⟩
  rw [hsettled.iterations_simplify hcounted] at ha
  obtain ⟨b, hb, rfl⟩ := List.mem_map.1 ha
  obtain ⟨htensor, hloops⟩ := h.2 env mem b hb
  refine ⟨htensor, ?_⟩
  rw [← hloops, List.filter_map]
  rfl

theorem MarksCarried.simplify (h : nest.MarksCarried I) (hsettled : Settled nest)
    (hcounted : nest.Counted) (hunit : ∀ env mem, ∀ a ∈ nest.iterations I env mem,
      ∀ s ∈ a.trips, s.loop.isUnit = true → s.value = 0) : nest.simplify.MarksCarried I := by
  intro env mem a ha b hb
  rw [hsettled.iterations_simplify hcounted] at ha hb
  obtain ⟨c, hc, rfl⟩ := List.mem_map.1 ha
  obtain ⟨d, hd, rfl⟩ := List.mem_map.1 hb
  rw [Iteration.agree_surviving_iff fun s hs t ht hloop hs' => ?_]
  · exact h env mem c hc d hd
  · rw [hunit env mem c hc s hs hs', hunit env mem d hd t ht (hloop ▸ hs')]

theorem Parallel.simplify (h : nest.Parallel I) (hsettled : Settled nest)
    (hcounted : nest.Counted) : nest.simplify.Parallel I := by
  rw [Parallel, hsettled.loops_simplify hcounted]
  refine ⟨fun l hl => h.1 l (List.mem_of_mem_filter hl), fun env mem => ?_⟩
  rw [hsettled.iterations_simplify hcounted, List.map_map]
  exact h.2 env mem

end Expr

namespace Lowering

variable {stem : String} {marks : Nat → LoopMarks} {dims : List Dim} {tensor : String}
  {place : Index → Index} {indices : List Expr} {value : Expr} {is : List Index}

theorem map_loop_nestIteration {i : Index} (h : i.length = dims.length) :
    (nestIteration stem marks 0 dims tensor place i).trips.map Trip.loop =
      nestLoops stem marks 0 dims := by
  have hlength : (nestLoops stem marks 0 dims).length ≤ i.length := by
    rw [length_nestLoops, h]
  rw [nestIteration, List.map_zipWith, ← List.map_uncurry_zip_eq_zipWith]
  exact List.map_fst_zip hlength

section NestFrom

variable (hfixed : ∀ dim ∈ dims, dim.isFixed = true)
  (hplace : ∀ i : Index, i.length = dims.length → ∀ env m,
    Expr.evalIndex I (nestEnv stem 0 i env) m indices = place i)

include hfixed

theorem counted_nestFrom {body : Expr} (hbody : body.loops = []) (k : Nat) :
    (nestFrom stem marks body k dims).Counted := by
  rw [Expr.Counted, loops_nestFrom hbody]
  intro l hl
  obtain ⟨⟨dim, d⟩, hmem, rfl⟩ := List.mem_map.1 hl
  have hdim := hfixed dim (List.fst_mem_of_mem_zipIdx hmem)
  cases dim with
  | symbol name => cases hdim
  | fixed size => exact ⟨_, rfl⟩

include hplace

theorem perfect_nestFrom :
    (nestFrom stem marks (.store tensor indices value) 0 dims).Perfect I tensor := by
  obtain ⟨is, _, hmem, hiterations⟩ :=
    exists_iterations_nestFrom marks hfixed tensor value hplace
  rw [Expr.Perfect, loops_nestFrom rfl]
  refine ⟨names_nestLoops_nodup 0, fun env mem a ha => ?_⟩
  rw [hiterations] at ha
  obtain ⟨i, hi, rfl⟩ := List.mem_map.1 ha
  exact ⟨rfl, map_loop_nestIteration (length_of_mem_places (hmem i hi))⟩

theorem value_of_isUnit_nestFrom (env : Env) (mem : Memory V) :
    ∀ a ∈ (nestFrom stem marks (.store tensor indices value) 0 dims).iterations I env mem,
      ∀ s ∈ a.trips, s.loop.isUnit = true → s.value = 0 := by
  obtain ⟨is, _, hmem, hiterations⟩ :=
    exists_iterations_nestFrom marks hfixed tensor value hplace
  intro a ha s hs hunit
  rw [hiterations] at ha
  obtain ⟨i, hi, rfl⟩ := List.mem_map.1 ha
  exact value_of_isUnit (hmem i hi) hs hunit

theorem marksCarried_nestFrom
    (hdecide : ∀ i j : Index, i.length = j.length →
      (place i = place j ↔ ∀ d : Nat, (marks d).isReduction = false → i[d]? = j[d]?)) :
    (nestFrom stem marks (.store tensor indices value) 0 dims).MarksCarried I := by
  obtain ⟨is, _, hmem, hiterations⟩ :=
    exists_iterations_nestFrom marks hfixed tensor value hplace
  intro env mem a ha b hb
  rw [hiterations] at ha hb
  obtain ⟨i, hi, rfl⟩ := List.mem_map.1 ha
  obtain ⟨j, hj, rfl⟩ := List.mem_map.1 hb
  have hlength := length_of_mem_places (hmem i hi)
  have hlength' := length_of_mem_places (hmem j hj)
  rw [agree_nestIteration_iff hlength hlength', ← hdecide i j (hlength.trans hlength'.symm)]
  rfl

theorem parallel_nestFrom (hmarks : ∀ d, (marks d).isReduction = false) (hself : ∀ i, place i = i) :
    (nestFrom stem marks (.store tensor indices value) 0 dims).Parallel I := by
  obtain ⟨is, hnodup, _, hiterations⟩ :=
    exists_iterations_nestFrom marks hfixed tensor value hplace
  rw [Expr.Parallel, loops_nestFrom rfl]
  constructor
  · intro l hl
    obtain ⟨⟨dim, d⟩, _, rfl⟩ := List.mem_map.1 hl
    simp [Loop.Marked, hmarks d]
  · intro env mem
    have hplaces : (is.map (nestIteration stem marks 0 dims tensor place)).map Iteration.place = is := by
      rw [List.map_map]
      conv_rhs => rw [← List.map_id is]
      exact List.map_congr_left fun i _ => hself i
    rw [hiterations, hplaces]
    exact hnodup

end NestFrom

end Lowering

/-! ## The two nests of a reduction -/

theorem Shape.isFixed_of_isStatic {s : Shape} (h : s.isStatic = true) :
    ∀ dim ∈ s.dims, dim.isFixed = true :=
  List.all_eq_true.1 h

theorem Shape.isStatic_reduced {s : Shape} (h : s.isStatic = true) (axes : List UInt64)
    (keepdim : Bool) : (s.reduced axes keepdim).isStatic = true := by
  refine List.all_eq_true.2 fun dim hdim => ?_
  rw [Shape.reduced_dims] at hdim
  rcases mem_collapse hdim with rfl | hmem
  · rfl
  · exact Shape.isFixed_of_isStatic h dim hmem

namespace Lowering

variable {dims : List Dim}

theorem isReduction_combine {axes : List UInt64} {d : Nat} :
    (if containsAxis axes d then LoopMarks.reduction else .empty).isReduction = false ↔
      containsAxis axes d = false := by
  cases containsAxis axes d <;> decide

theorem evalIndex_init {s : Shape} (i : Index) (hi : i.length = s.dims.length) (env : Env)
    (m : Memory V) :
    Expr.evalIndex I (nestEnv resultStem 0 i env) m (loopVars resultStem s.rank) = i := by
  rw [Shape.rank, ← hi, evalIndex_loopVars]

theorem evalIndex_combine {s : Shape} (axes : List UInt64) (keepdim : Bool) (i : Index)
    (hi : i.length = s.dims.length) (env : Env) (m : Memory V) :
    Expr.evalIndex I (nestEnv sourceStem 0 i env) m (resultIndices axes keepdim s.rank) =
      collapse axes keepdim 0 i := by
  rw [Shape.rank, ← hi, evalIndex_resultIndices]

variable (result : TensorHeader) (kind : ReductionKind)

theorem initNest_spec (I : Interpretation V) (h : result.shape.isStatic = true) :
    (initNest result kind).Counted ∧ (initNest result kind).Perfect I result.name ∧
      (initNest result kind).Parallel I := by
  have hfixed := Shape.isFixed_of_isStatic h
  have hplace := evalIndex_init (I := I) (s := result.shape)
  exact ⟨counted_nestFrom hfixed rfl 0, perfect_nestFrom hfixed hplace,
    parallel_nestFrom hfixed hplace (fun _ => rfl) fun _ => rfl⟩

theorem combineNest_spec (I : Interpretation V) {source : Tensor} (axes : List UInt64)
    (keepdim : Bool) (h : source.shape.isStatic = true) :
    (combineNest result kind source axes keepdim).Counted ∧
      (combineNest result kind source axes keepdim).Perfect I result.name ∧
      (combineNest result kind source axes keepdim).MarksCarried I ∧
      ∀ env mem, ∀ a ∈ (combineNest result kind source axes keepdim).iterations I env mem,
        ∀ s ∈ a.trips, s.loop.isUnit = true → s.value = 0 := by
  have hfixed := Shape.isFixed_of_isStatic h
  have hplace := evalIndex_combine (I := I) (s := source.shape) axes keepdim
  refine ⟨counted_nestFrom hfixed rfl 0, perfect_nestFrom hfixed hplace, ?_,
    value_of_isUnit_nestFrom hfixed hplace⟩
  refine marksCarried_nestFrom hfixed hplace fun i j hij => ?_
  simp only [isReduction_combine]
  exact collapse_eq_collapse_iff hij

end Lowering

/-- The marks of a lowered reduction say exactly which loops carry a dependence, if all sizes are
known. In the second nest two iterations store to the same element of the result if and only if they
agree on the variables of all loops without the mark. In the first nest no loop has the mark, and no
two iterations store to the same element. The same holds of what is left of the two nests after
simplification: the loops that run once are gone from the nest and from each iteration, and all else
is as it was. -/
theorem lower_reduce_marks (I : Interpretation V) (x : Tensor) (kind : ReductionKind)
    (axes : List UInt64) (keepdim : Bool) (name : String) (hstatic : x.shape.isStatic = true) :
    ∃ init combine, (x.reduce kind axes keepdim name).lower = .ok (.block [init, combine]) ∧
      (Expr.block [init, combine]).simplify =
        .block (init.simplify.statements ++ combine.simplify.statements) ∧
      (∀ nest ∈ [init, combine],
        nest.simplify.loops = nest.loops.filter (fun l => !l.isUnit) ∧ ∀ env mem,
          nest.simplify.iterations I env mem =
            (nest.iterations I env mem).map Iteration.surviving) ∧
      (∀ nest ∈ [init, combine, init.simplify, combine.simplify], nest.Perfect I name) ∧
      (∀ nest ∈ [combine, combine.simplify], nest.MarksCarried I) ∧
      ∀ nest ∈ [init, init.simplify], nest.Parallel I := by
  obtain ⟨result, hresult⟩ : ∃ result : TensorHeader,
      result = ⟨name, x.shape.reduced axes keepdim, x.element⟩ := ⟨_, rfl⟩
  have hlower : (x.reduce kind axes keepdim name).lower =
      .ok (.block [initNest result kind, combineNest result kind x axes keepdim]) := by
    rw [hresult]
    rfl
  have hreduced : result.shape.isStatic = true := by
    rw [hresult]
    exact Shape.isStatic_reduced hstatic axes keepdim
  have hname : result.name = name := by rw [hresult]
  obtain ⟨hinitCounted, hinitPerfect, hparallel⟩ := initNest_spec result kind I hreduced
  obtain ⟨hcombineCounted, hcombinePerfect, hcarried, hunit⟩ :=
    combineNest_spec result kind I axes keepdim hstatic
  have hsettled : Settled (initNest result kind) ∧
      Settled (combineNest result kind x axes keepdim) := by
    cases (Settled.lower hlower).1 with
    | block h => exact ⟨h _ (by simp), h _ (by simp)⟩
  obtain ⟨hinit, hcombine⟩ := hsettled
  rw [hname] at hinitPerfect hcombinePerfect
  refine ⟨_, _, hlower, ?_, ?_, ?_, ?_, ?_⟩
  · simp [Expr.simplify_block]
  · simpa using ⟨⟨hinit.loops_simplify hinitCounted, hinit.iterations_simplify hinitCounted⟩,
      hcombine.loops_simplify hcombineCounted, hcombine.iterations_simplify hcombineCounted⟩
  · simpa using ⟨hinitPerfect, hcombinePerfect, hinitPerfect.simplify hinit hinitCounted,
      hcombinePerfect.simplify hcombine hcombineCounted⟩
  · simpa using ⟨hcarried, hcarried.simplify hcombine hcombineCounted hunit⟩
  · simpa using ⟨hparallel, hparallel.simplify hinit hinitCounted⟩

def rows : Tensor :=
  .input ⟨"x", ⟨[.fixed 2, .fixed 1, .fixed 3]⟩, .int32⟩

/-- The loop over the second dimension goes, and only the one over the last is marked. -/
theorem lower_reduce_marks_rows :
    rows.shape.isStatic = true ∧ ∃ init combine,
      (rows.reduce .sum [2] false "y").lower = .ok (.block [init, combine]) ∧
        combine.simplify.MarksCarried exactIntegers ∧ init.simplify.Parallel exactIntegers ∧
        combine.simplify.loops.map (fun l => (l.name, l.marks)) =
          [("i0", .empty), ("i2", .reduction)] ∧
        (combine.simplify.iterations exactIntegers (fun _ => 0) gridMemory).map Iteration.place =
          [[0, 0], [0, 0], [0, 0], [1, 0], [1, 0], [1, 0]] := by
  have hstatic : rows.shape.isStatic = true := rfl
  obtain ⟨init, combine, hlower, _, _, _, hcarried, hparallel⟩ :=
    lower_reduce_marks exactIntegers rows .sum [2] false "y" hstatic
  refine ⟨hstatic, init, combine, hlower, hcarried _ (by simp), hparallel _ (by simp), ?_⟩
  cases hlower
  exact ⟨rfl, rfl⟩

end Reductions
