import Reductions.Proofs.Pipeline

/-!
# Names of emitted tensors

A lowered tree stores to its own tensor only, so running what an emitter emits
leaves the input alone as long as no emitted tensor has the input's name. The
two-step emitter makes up the name of its temporary and does not look at the
name of the input. Where the two are the same, the start values overwrite the
input before it is read.
-/

namespace Reductions

open Lowering

variable {V : Type} {I : Interpretation V}

/-! ## What lowered trees store to -/

theorem writes_lower {t : Tensor} {tree : Expr} (h : t.lower = .ok tree) :
    ∀ s ∈ tree.writes, s = t.name := by
  cases t with
  | input header => cases h
  | reduction header kind source axes keepdim =>
      obtain rfl := Except.ok.inj h
      simp only [Expr.writes, Expr.writesAll, initNest, combineNest, combineStep, writes_nestFrom,
        List.append_nil, List.mem_append, List.mem_singleton, or_self]
      intro s hs
      exact hs

theorem execAll_apply_of_not_mem_names {tensors : List Tensor} {trees : List Expr}
    (htrees : tensors.mapM Tensor.lower = .ok trees) {t : String}
    (ht : t ∉ tensors.map Tensor.name) (env : Env) (mem : Memory V) :
    Expr.execAll I trees env mem t = mem t := by
  induction tensors generalizing trees mem with
  | nil =>
      obtain rfl := Except.ok.inj htrees
      rfl
  | cons u tensors ih =>
      rw [List.map_cons, List.mem_cons, not_or] at ht
      rw [List.mapM_cons] at htrees
      cases htree : u.lower with
      | error cause =>
          rw [htree] at htrees
          cases htrees
      | ok tree =>
          cases hrest : tensors.mapM Tensor.lower with
          | error cause =>
              rw [htree, hrest] at htrees
              cases htrees
          | ok rest =>
              rw [htree, hrest] at htrees
              obtain rfl := Except.ok.inj htrees
              have hwrites : t ∉ tree.writes := fun h => ht.1 (writes_lower htree t h)
              rw [Expr.execAll, ih hrest ht.2, Expr.exec_apply_of_not_mem_writes tree env mem hwrites]

/-! ## Names -/

namespace Emitter

/-- The input has the name of the temporary that the emitter puts its first step into. -/
def Clashes (emitter : Emitter) (x : Tensor) (axes : List UInt64) (name : String) : Prop :=
  emitter = .twoStep ∧ axes ≠ [] ∧ x.name = temporary name

instance (emitter : Emitter) (x : Tensor) (axes : List UInt64) (name : String) :
    Decidable (emitter.Clashes x axes name) :=
  inferInstanceAs (Decidable (_ ∧ _ ∧ _))

theorem emit_twoStep (kind : ReductionKind) (x : Tensor) {axes : List UInt64} (haxes : axes ≠ [])
    (keepdim : Bool) (name : String) :
    ∃ last, twoStep.emit kind x axes keepdim name =
      [x.reduce kind [last] true (temporary name),
        (x.reduce kind [last] true (temporary name)).reduce kind axes keepdim name] := by
  have hlast : axes.getLast? = some (axes.getLast haxes) := List.getLast?_eq_some_getLast haxes
  refine ⟨axes.getLast haxes, ?_⟩
  simp only [emit, hlast]

theorem nodup_names_iff (emitter : Emitter) (kind : ReductionKind) (x : Tensor)
    (axes : List UInt64) (keepdim : Bool) {name : String} (hname : name ≠ x.name) :
    (x.name :: (emitter.emit kind x axes keepdim name).map Tensor.name).Nodup ↔
      ¬ emitter.Clashes x axes name := by
  rcases emitter.emit_cases kind x axes keepdim name with hone | ⟨rfl, last, hlast, htwo⟩
  · have hnames : (emitter.emit kind x axes keepdim name).map Tensor.name = [name] := by
      rw [hone]
      rfl
    have hdistinct : [x.name, name].Nodup := by simpa using hname.symm
    rw [hnames]
    refine iff_of_true hdistinct ?_
    rintro ⟨rfl, haxes, _⟩
    obtain ⟨last, htwo⟩ := emit_twoStep kind x haxes keepdim name
    rw [hone] at htwo
    cases (List.cons.inj htwo).2
  · have hnames : (twoStep.emit kind x axes keepdim name).map Tensor.name =
        [temporary name, name] := by
      rw [htwo]
      rfl
    have haxes : axes ≠ [] := by
      rintro rfl
      cases hlast
    rw [hnames]
    simp [Clashes, haxes, hname.symm, temporary_ne name]

end Emitter

/-! ## What a clash does -/

theorem Dim.zero_mem_words {dim : Dim} {w : Int64} (h : w ∈ dim.words) : 0 ∈ dim.words := by
  obtain ⟨k, hk, _⟩ := List.mem_map.1 h
  have hpos : 0 ∈ List.range dim.size := by
    rw [List.mem_range] at hk ⊢
    omega
  exact List.mem_map.2 ⟨0, hpos, rfl⟩

theorem project_true_mem_places (reduced : Nat → Bool) {dims : List Dim} {i : Index}
    (hi : i ∈ places dims) : project reduced true 0 i ∈ places dims := by
  induction dims generalizing reduced i with
  | nil =>
      have hnil : i = [] := by simpa [places] using hi
      rw [hnil]
      exact List.mem_singleton_self []
  | cons dim dims ih =>
      obtain ⟨w, j, rfl, hw, hj⟩ := exists_cons_of_mem_places hi
      have htail := ih (fun d => reduced (d + 1)) hj
      rw [project]
      by_cases hreduced : reduced 0
      · rw [if_pos hreduced]
        exact cons_mem_places.2 ⟨Dim.zero_mem_words hw, htail⟩
      · rw [if_neg hreduced]
        exact cons_mem_places.2 ⟨hw, htail⟩

theorem exists_mem_indices_reduced {s : Shape} (hrank : s.dims ≠ []) (hplaces : s.indices ≠ [])
    (axes : List UInt64) : ∃ p ∈ s.indices, p ∈ (s.reduced axes true).indices := by
  obtain ⟨i, hi⟩ := List.exists_mem_of_ne_nil _ hplaces
  refine ⟨collapse axes true 0 i, ?_, ?_⟩
  · obtain ⟨dim, dims, hdims⟩ := List.exists_cons_of_ne_nil hrank
    rw [Shape.indices, hdims] at hi ⊢
    have hproject := project_true_mem_places (containsAxis axes) hi
    obtain ⟨w, j, rfl, _, _⟩ := exists_cons_of_mem_places hi
    rw [collapse_true_cons]
    exact hproject
  · rw [Shape.indices, Shape.reduced_dims]
    exact collapse_mem_places axes true hi

theorem exec_initNest_write (I : Interpretation V) {result : TensorHeader} (kind : ReductionKind)
    (h : result.shape.Bounded) {p : Index} (hp : p ∈ result.shape.indices) (a : V) (env : Env)
    (mem : Memory V) :
    (initNest result kind).exec I env (mem.write result.name p a) =
      (initNest result kind).exec I env mem := by
  rw [exec_initNest kind h, exec_initNest kind h]
  funext t o
  rw [foldl_write, foldl_write, Memory.write_apply]
  -- The start values cover the place; elsewhere nothing was written.
  by_cases hcovered : t = result.name ∧ o ∈ result.shape.indices
  · rw [if_pos hcovered, if_pos hcovered]
  · have hother : ¬ (t = result.name ∧ o = p) := fun heq => hcovered ⟨heq.1, heq.2 ▸ hp⟩
    rw [if_neg hcovered, if_neg hcovered, if_neg hother]

/-- What the result holds before a reduction runs makes no difference, even where the source is a
tensor of the same name. -/
theorem exec_lower_write {x : Tensor} {kind : ReductionKind} {axes : List UInt64} {keepdim : Bool}
    {name : String} {tree : Expr} (htree : (x.reduce kind axes keepdim name).lower = .ok tree)
    (hbounded : x.shape.Bounded) {p : Index} (hp : p ∈ (x.shape.reduced axes keepdim).indices)
    (a : V) (env : Env) (mem : Memory V) :
    tree.exec I env (mem.write name p a) = tree.exec I env mem := by
  obtain rfl := Except.ok.inj htree
  let result : TensorHeader := ⟨name, x.shape.reduced axes keepdim, x.element⟩
  have hresult : result.shape.Bounded := hbounded.reduced axes keepdim
  have hinit := exec_initNest_write I kind hresult hp a env mem
  simp only [Expr.exec, Expr.execAll]
  exact congrArg _ hinit

theorem Emitter.Clashes.exists_ne {emitter : Emitter} {x : Tensor} {axes : List UInt64}
    {name : String} (h : emitter.Clashes x axes name) {kind : ReductionKind} {keepdim : Bool}
    {trees : List Expr}
    (htrees : (emitter.emit kind x axes keepdim name).mapM Tensor.lower = .ok trees)
    (hbounded : x.shape.Bounded) (hrank : x.shape.dims ≠ []) (hplaces : x.shape.indices ≠ [])
    {a b : V} (hab : a ≠ b) (env : Env) :
    ∃ mem : Memory V, ∃ i ∈ x.shape.indices,
      Expr.execAll I trees env mem x.name i ≠ mem x.name i := by
  obtain ⟨rfl, haxes, hclash⟩ := h
  obtain ⟨last, htwo⟩ := Emitter.emit_twoStep kind x haxes keepdim name
  obtain ⟨first, hfirst⟩ := x.lower_reduce kind [last] true (Emitter.temporary name)
  obtain ⟨second, hsecond⟩ :=
    (x.reduce kind [last] true (Emitter.temporary name)).lower_reduce kind axes keepdim name
  obtain rfl : [first, second] = trees := by
    rw [htwo, List.mapM_cons, List.mapM_cons, hfirst, hsecond] at htrees
    exact Except.ok.inj htrees
  obtain ⟨p, hp, hreduced⟩ := exists_mem_indices_reduced hrank hplaces [last]
  -- A run cannot tell two contents apart that differ in an element it starts by overwriting.
  let mem : Memory V := fun _ _ => a
  have hsame : Expr.execAll I [first, second] env (mem.write x.name p b) =
      Expr.execAll I [first, second] env mem := by
    simp only [Expr.execAll]
    rw [hclash, exec_lower_write hfirst hbounded hreduced]
  by_cases hkept : Expr.execAll I [first, second] env mem x.name p = a
  · refine ⟨mem.write x.name p b, p, hp, ?_⟩
    rw [hsame, hkept, Memory.write_apply, if_pos ⟨rfl, rfl⟩]
    exact hab
  · exact ⟨mem, p, hp, hkept⟩

/-! ## Running what is emitted -/

/-- The input keeps its elements and all names are different exactly when the input does not clash
with a temporary. Under a clash some element changes for some contents of the memory, as soon as the
input has a dimension and an element and there are two values. -/
theorem Emitter.emit_preserves_source (I : Interpretation V) (emitter : Emitter)
    (kind : ReductionKind) (x : Tensor) (axes : List UInt64) (keepdim : Bool) {name : String}
    (hname : name ≠ x.name) :
    ∃ trees, (emitter.emit kind x axes keepdim name).mapM Tensor.lower = .ok trees ∧
      ((x.name :: (emitter.emit kind x axes keepdim name).map Tensor.name).Nodup ↔
        ¬ emitter.Clashes x axes name) ∧
      (¬ emitter.Clashes x axes name →
        ∀ (env : Env) (mem : Memory V), Expr.execAll I trees env mem x.name = mem x.name) ∧
      (emitter.Clashes x axes name → x.shape.Bounded → x.shape.dims ≠ [] → x.shape.indices ≠ [] →
        ∀ a b : V, a ≠ b → ∀ env : Env, ∃ mem : Memory V, ∃ i ∈ x.shape.indices,
          Expr.execAll I trees env mem x.name i ≠ mem x.name i) := by
  have hnames := nodup_names_iff emitter kind x axes keepdim hname
  obtain ⟨trees, htrees, _, _⟩ := exists_roots (emitter.lower_emit kind x axes keepdim name)
  refine ⟨trees, htrees, hnames, fun hfree env mem => ?_, ?_⟩
  · have hdistinct := hnames.2 hfree
    rw [List.nodup_cons] at hdistinct
    exact execAll_apply_of_not_mem_names htrees hdistinct.1 env mem
  · intro hclash hbounded hrank hplaces a b hab env
    exact hclash.exists_ne htrees hbounded hrank hplaces hab env

/-- An input with the name of the temporary behind `y`. -/
def namesake : Tensor :=
  .input ⟨"y_tmp", ⟨[.fixed 2]⟩, .int32⟩

theorem Emitter.emit_preserves_source_grid :
    ("y" ≠ grid.name ∧
      ∃ trees, (Emitter.twoStep.emit .sum grid [0, 1] false "y").mapM Tensor.lower = .ok trees ∧
        (grid.name :: (Emitter.twoStep.emit .sum grid [0, 1] false "y").map Tensor.name).Nodup ∧
        ∀ (env : Env) (mem : Memory Int),
          Expr.execAll exactIntegers trees env mem "x" = mem "x") ∧
    "y" ≠ namesake.name ∧
      ∃ trees, (Emitter.twoStep.emit .max namesake [0] true "y").mapM Tensor.lower = .ok trees ∧
        ∀ env : Env, ∃ mem : Memory Int, ∃ i ∈ namesake.shape.indices,
          Expr.execAll exactIntegers trees env mem "y_tmp" i ≠ mem "y_tmp" i := by
  have hgrid : "y" ≠ grid.name := by decide
  have hnamesake : "y" ≠ namesake.name := by decide
  have hfree : ¬ Emitter.twoStep.Clashes grid [0, 1] "y" := by decide
  have hclash : Emitter.twoStep.Clashes namesake [0] "y" := by decide
  obtain ⟨trees, htrees, hnames, hkept, _⟩ :=
    emit_preserves_source exactIntegers .twoStep .sum grid [0, 1] false hgrid
  obtain ⟨trees', htrees', _, _, hchanged⟩ :=
    emit_preserves_source exactIntegers .twoStep .max namesake [0] true hnamesake
  have hint : (0 : Int) ≠ 1 := by decide
  exact ⟨⟨hgrid, trees, htrees, hnames.2 hfree, hkept hfree⟩, hnamesake, trees', htrees',
    hchanged hclash (by decide) (by decide) (by decide) 0 1 hint⟩

def oneTwo : Memory Int
  | _, [place] => place.toInt + 1
  | _, _ => 0

/-- The first step of a sum overwrites the one before it reads it, and two is left of a sum of
three. -/
theorem Emitter.emit_overwrites_namesake :
    namesake.shape.isStatic = true ∧ "y" ≠ namesake.name ∧
      namesake.name ∈ (Emitter.twoStep.emit .sum namesake [0] false "y").map Tensor.name ∧
      ∃ trees, (Emitter.twoStep.emit .sum namesake [0] false "y").mapM Tensor.lower = .ok trees ∧
        Expr.execAll exactIntegers trees (fun _ => 0) oneTwo namesake.name [0] ≠
          oneTwo namesake.name [0] ∧
        Expr.execAll exactIntegers trees (fun _ => 0) oneTwo "y" [0] = 2 := by
  refine ⟨by decide, by decide, by decide, _, rfl, ?_, ?_⟩
  · decide
  · decide

end Reductions
