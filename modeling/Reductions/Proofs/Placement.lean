import Mathlib.Data.List.Basic
import Reductions.Expr.Simplify
import Reductions.Proofs.FoldingRules

/-!
# Where statements stand

One kind of tree holds expressions and statements, so a statement can stand in
an operand, an index or a loop bound. `Placed` rules this out. Every pass over
trees keeps it, and the number of loops of a placed tree changes only where a
loop that runs once is removed.
-/

namespace Reductions

/-- No statement occurs in the tree. -/
inductive IsValue : Expr → Prop
  | int (n : Int64) : IsValue (.int n)
  | float (x : Binary64) : IsValue (.float x)
  | bool (b : Bool) : IsValue (.bool b)
  | var (v : String) : IsValue (.var v)
  | handle (tensor : Tensor) : IsValue (.handle tensor)
  | binary {op : BinaryOp} {lhs rhs : Expr} : IsValue lhs → IsValue rhs →
      IsValue (.binary op lhs rhs)
  | load {tensor : String} {indices : List Expr} : (∀ i ∈ indices, IsValue i) →
      IsValue (.load tensor indices)

/-- Statements occur in statement position only. -/
inductive Placed : Expr → Prop
  | value {e : Expr} : IsValue e → Placed e
  | store {tensor : String} {indices : List Expr} {value : Expr} :
      (∀ i ∈ indices, IsValue i) → IsValue value → Placed (.store tensor indices value)
  | loop {v : String} {min extent : Expr} {marks : LoopMarks} {body : Expr} :
      IsValue min → IsValue extent → Placed body → Placed (.loop v min extent marks body)
  | block {ss : List Expr} : (∀ s ∈ ss, Placed s) → Placed (.block ss)

/-- The first tree stands in the second where a statement does. -/
inductive StandsIn : Expr → Expr → Prop
  | here {e : Expr} : StandsIn e e
  | body {s : Expr} {v : String} {min extent : Expr} {marks : LoopMarks} {body : Expr} :
      StandsIn s body → StandsIn s (.loop v min extent marks body)
  | statement {s t : Expr} {ss : List Expr} : t ∈ ss → StandsIn s t → StandsIn s (.block ss)

/-! ## Counts and what they count -/

namespace Expr

theorem countUnitLoopsAll_eq_zero_iff {ss : List Expr} :
    countUnitLoopsAll ss = 0 ↔ ∀ s ∈ ss, s.countUnitLoops = 0 := by
  induction ss with
  | nil => simp [countUnitLoopsAll]
  | cons s ss ih => simp [countUnitLoopsAll, ih]

theorem countNestedBlocksAll_eq_zero_iff {ss : List Expr} :
    countNestedBlocksAll ss = 0 ↔ ∀ s ∈ ss, s.countNestedBlocks = 0 ∧ s.isBlock = false := by
  induction ss with
  | nil => simp [countNestedBlocksAll]
  | cons s ss ih => cases hblock : s.isBlock <;> simp [countNestedBlocksAll, ih, hblock]

theorem countLoopsAll_map {f : Expr → Expr} {ss : List Expr}
    (h : ∀ s ∈ ss, (f s).countLoops = s.countLoops) :
    countLoopsAll (ss.map f) = countLoopsAll ss := by
  induction ss with
  | nil => rfl
  | cons s ss ih =>
      have hhead : (f s).countLoops = s.countLoops := h s List.mem_cons_self
      have htail : countLoopsAll (ss.map f) = countLoopsAll ss :=
        ih fun t ht => h t (List.mem_cons_of_mem _ ht)
      rw [List.map_cons, countLoopsAll, countLoopsAll, hhead, htail]

theorem countLoopsAll_map_removeUnitLoops {ss : List Expr}
    (h : ∀ s ∈ ss, s.removeUnitLoops.countLoops + s.countUnitLoops = s.countLoops) :
    countLoopsAll (ss.map removeUnitLoops) + countUnitLoopsAll ss = countLoopsAll ss := by
  induction ss with
  | nil => rfl
  | cons s ss ih =>
      have hhead := h s List.mem_cons_self
      have htail := ih fun t ht => h t (List.mem_cons_of_mem _ ht)
      rw [List.map_cons, countLoopsAll, countUnitLoopsAll, countLoopsAll]
      omega

theorem countUnitLoops_eq_zero_iff {e : Expr} :
    e.countUnitLoops = 0 ↔
      ∀ v min marks body, ¬ StandsIn (.loop v min (.int 1) marks body) e := by
  induction e using Expr.induct with
  | int | float | bool | var | handle | binary | load | store =>
      refine ⟨fun _ v min marks body hstands => ?_, fun _ => rfl⟩
      cases hstands
  | loop x lo extent marks' body' _ _ ih =>
      rw [countUnitLoops, Nat.add_eq_zero_iff, ih]
      constructor
      · rintro ⟨hbody, hextent⟩ v min marks body hstands
        cases hstands with
        | here => simp [asInt?] at hextent
        | body hstands => exact hbody v min marks body hstands
      · intro hnone
        refine ⟨fun v min marks body hstands => hnone v min marks body (.body hstands), ?_⟩
        rw [if_neg]
        intro hunit
        have heq : extent = .int 1 := by
          cases extent with
          | int n => rw [Option.some.inj hunit]
          | _ => cases hunit
        exact hnone x lo marks' body' (heq ▸ .here)
  | block ss ih =>
      rw [countUnitLoops, countUnitLoopsAll_eq_zero_iff]
      constructor
      · intro hall v min marks body hstands
        cases hstands with
        | statement hmem hstands =>
            exact (ih _ hmem).1 (hall _ hmem) v min marks body hstands
      · intro hnone s hs
        refine (ih s hs).2 fun v min marks body hstands => ?_
        exact hnone v min marks body (.statement hs hstands)

theorem countNestedBlocks_eq_zero_iff {e : Expr} :
    e.countNestedBlocks = 0 ↔ ∀ ss, StandsIn (.block ss) e → ∀ s ∈ ss, s.isBlock = false := by
  induction e using Expr.induct with
  | int | float | bool | var | handle | binary | load | store =>
      refine ⟨fun _ ss hstands => ?_, fun _ => rfl⟩
      cases hstands
  | loop x lo extent marks body _ _ ih =>
      rw [countNestedBlocks, ih]
      constructor
      · intro hbody ss hstands
        cases hstands with
        | body hstands => exact hbody ss hstands
      · exact fun hall ss hstands => hall ss (.body hstands)
  | block ts ih =>
      rw [countNestedBlocks, countNestedBlocksAll_eq_zero_iff]
      constructor
      · intro hall ss hstands
        cases hstands with
        | here => exact fun s hs => (hall s hs).2
        | statement hmem hstands => exact (ih _ hmem).1 (hall _ hmem).1 ss hstands
      · intro hall t ht
        refine ⟨(ih t ht).2 fun ss hstands => hall ss (.statement ht hstands), ?_⟩
        exact hall ts .here t ht

end Expr

/-! ## Values -/

namespace IsValue

variable {e r : Expr}

theorem countUnitLoops_eq_zero (h : IsValue e) : e.countUnitLoops = 0 := by
  cases h <;> rfl

theorem countLoops_eq_zero (h : IsValue e) : e.countLoops = 0 := by
  cases h <;> rfl

theorem removeUnitLoops_eq_self (h : IsValue e) : e.removeUnitLoops = e := by
  cases h <;> rfl

theorem flatten_eq_self (h : IsValue e) : e.flatten = e := by
  cases h <;> rfl

theorem substitute (h : IsValue e) (v : String) (hr : IsValue r) :
    IsValue (Expr.substitute v r e) := by
  induction h with
  | int n => exact .int n
  | float x => exact .float x
  | bool b => exact .bool b
  | handle t => exact .handle t
  | var x =>
      rw [Expr.substitute]
      by_cases hx : x = v
      · rw [if_pos hx]
        exact hr
      · rw [if_neg hx]
        exact .var x
  | binary _ _ ihl ihr => exact .binary ihl ihr
  | load _ ih =>
      rw [Expr.substitute, Expr.substituteAll_eq]
      apply IsValue.load
      simpa using ih

theorem fold (h : IsValue e) : IsValue e.fold := by
  induction h with
  | int n => exact .int n
  | float x => exact .float x
  | bool b => exact .bool b
  | var v => exact .var v
  | handle t => exact .handle t
  | binary _ _ ihl ihr =>
      rw [Expr.fold]
      exact Expr.foldBinary_induct ihl ihr (.binary ihl ihr) .int .bool
  | load _ ih =>
      rw [Expr.fold, Expr.foldAll_eq]
      apply IsValue.load
      simpa using ih

end IsValue

/-! ## Trees -/

namespace Placed

variable {e r : Expr}

theorem substitute (h : Placed e) (v : String) (hr : IsValue r) :
    Placed (Expr.substitute v r e) := by
  induction h with
  | value he => exact .value (he.substitute v hr)
  | store hindices hvalue =>
      rw [Expr.substitute, Expr.substituteAll_eq]
      refine .store ?_ (hvalue.substitute v hr)
      simpa using fun i hi => (hindices i hi).substitute v hr
  | @loop x min extent marks body hmin hextent hbody ih =>
      rw [Expr.substitute]
      refine .loop (hmin.substitute v hr) (hextent.substitute v hr) ?_
      by_cases hx : x = v
      · rw [if_pos hx]
        exact hbody
      · rw [if_neg hx]
        exact ih
  | block _ ih =>
      rw [Expr.substitute, Expr.substituteAll_eq]
      apply Placed.block
      simpa using ih

theorem fold (h : Placed e) : Placed e.fold := by
  induction h with
  | value he => exact .value he.fold
  | store hindices hvalue =>
      rw [Expr.fold, Expr.foldAll_eq]
      refine .store ?_ hvalue.fold
      simpa using fun i hi => (hindices i hi).fold
  | loop hmin hextent _ ih => exact .loop hmin.fold hextent.fold ih
  | block _ ih =>
      rw [Expr.fold, Expr.foldAll_eq]
      apply Placed.block
      simpa using ih

theorem removeUnitLoops (h : Placed e) : Placed e.removeUnitLoops := by
  induction h with
  | value he =>
      rw [he.removeUnitLoops_eq_self]
      exact .value he
  | store hindices hvalue => exact .store hindices hvalue
  | @loop v min extent marks body hmin hextent _ ih =>
      rw [Expr.removeUnitLoops]
      by_cases hunit : extent.asInt? = some 1
      · rw [if_pos hunit]
        exact (ih.substitute v hmin).fold
      · rw [if_neg hunit]
        exact .loop hmin hextent ih
  | block _ ih =>
      rw [Expr.removeUnitLoops, Expr.removeUnitLoopsAll_eq]
      apply Placed.block
      simpa using ih

theorem of_mem_statements (h : Placed e) {s : Expr} (hs : s ∈ e.statements) : Placed s := by
  cases h with
  | block hss => exact hss s hs
  | value he =>
      have heq : s = e := by cases he <;> exact List.mem_singleton.1 hs
      rw [heq]
      exact .value he
  | store hindices hvalue =>
      rw [List.mem_singleton.1 hs]
      exact .store hindices hvalue
  | loop hmin hextent hbody =>
      rw [List.mem_singleton.1 hs]
      exact .loop hmin hextent hbody

theorem flatten (h : Placed e) : Placed e.flatten := by
  induction h with
  | value he =>
      rw [he.flatten_eq_self]
      exact .value he
  | store hindices hvalue => exact .store hindices hvalue
  | loop hmin hextent _ ih => exact .loop hmin hextent ih
  | block _ ih =>
      rw [Expr.flatten, Expr.flattenAll_eq]
      apply Placed.block
      intro s hs
      obtain ⟨t, ht, hst⟩ := List.mem_flatMap.1 hs
      obtain ⟨u, hu, rfl⟩ := List.mem_map.1 ht
      exact (ih u hu).of_mem_statements hst

theorem simplify (h : Placed e) : Placed e.simplify :=
  h.removeUnitLoops.flatten

/-! ## The number of loops -/

theorem countLoops_substitute (h : Placed e) (v : String) (hr : IsValue r) :
    (Expr.substitute v r e).countLoops = e.countLoops := by
  induction h with
  | value he => rw [(he.substitute v hr).countLoops_eq_zero, he.countLoops_eq_zero]
  | store => rfl
  | @loop x min extent marks body _ _ _ ih =>
      rw [Expr.substitute, Expr.countLoops, Expr.countLoops]
      by_cases hx : x = v
      · rw [if_pos hx]
      · rw [if_neg hx, ih]
  | block _ ih =>
      rw [Expr.substitute, Expr.substituteAll_eq, Expr.countLoops, Expr.countLoops,
        Expr.countLoopsAll_map ih]

theorem countLoops_fold (h : Placed e) : e.fold.countLoops = e.countLoops := by
  induction h with
  | value he => rw [he.fold.countLoops_eq_zero, he.countLoops_eq_zero]
  | store => rfl
  | loop _ _ _ ih => rw [Expr.fold, Expr.countLoops, Expr.countLoops, ih]
  | block _ ih =>
      rw [Expr.fold, Expr.foldAll_eq, Expr.countLoops, Expr.countLoops,
        Expr.countLoopsAll_map ih]

theorem countLoops_removeUnitLoops (h : Placed e) :
    e.removeUnitLoops.countLoops + e.countUnitLoops = e.countLoops := by
  induction h with
  | value he => rw [he.removeUnitLoops_eq_self, he.countUnitLoops_eq_zero, Nat.add_zero]
  | store => rfl
  | @loop v min extent marks body hmin _ hbody ih =>
      rw [Expr.removeUnitLoops, Expr.countUnitLoops, Expr.countLoops, ← ih]
      by_cases hunit : extent.asInt? = some 1
      · -- Putting in the lower bound moves no loop, so only the removed one is missing.
        have hrest : Placed body.removeUnitLoops := hbody.removeUnitLoops
        rw [if_pos hunit, if_pos hunit, (hrest.substitute v hmin).countLoops_fold,
          hrest.countLoops_substitute v hmin]
        omega
      · rw [if_neg hunit, if_neg hunit, Expr.countLoops]
        omega
  | block _ ih =>
      rw [Expr.removeUnitLoops, Expr.removeUnitLoopsAll_eq, Expr.countUnitLoops, Expr.countLoops,
        Expr.countLoops, Expr.countLoopsAll_map_removeUnitLoops ih]

end Placed

/-! ## Flattening -/

namespace Expr

theorem count_flattenAll {count : List Expr → Nat}
    (happend : ∀ ss ts, count (ss ++ ts) = count ss + count ts) {ss : List Expr}
    (h : ∀ s ∈ ss, count s.flatten.statements = count [s]) :
    count (flattenAll ss) = count ss := by
  induction ss with
  | nil => rfl
  | cons s ss ih =>
      have hhead := h s List.mem_cons_self
      have htail := ih fun t ht => h t (List.mem_cons_of_mem _ ht)
      calc count (flattenAll (s :: ss))
          = count s.flatten.statements + count (flattenAll ss) := happend _ _
        _ = count [s] + count ss := by rw [hhead, htail]
        _ = count (s :: ss) := (happend [s] ss).symm

theorem countLoopsAll_statements (e : Expr) : countLoopsAll e.statements = e.countLoops := by
  cases e <;> rfl

theorem countLoops_flatten (e : Expr) : e.flatten.countLoops = e.countLoops := by
  induction e using Expr.induct with
  | int | float | bool | var | handle | binary | load | store => rfl
  | loop v min extent marks body _ _ ih => rw [flatten, countLoops, countLoops, ih]
  | block ss ih =>
      rw [flatten, countLoops, countLoops]
      refine count_flattenAll countLoopsAll_append fun s hs => ?_
      rw [countLoopsAll_statements, ih s hs]
      rfl

theorem countUnitLoopsAll_statements (e : Expr) :
    countUnitLoopsAll e.statements = e.countUnitLoops := by
  cases e <;> rfl

theorem countUnitLoops_flatten (e : Expr) : e.flatten.countUnitLoops = e.countUnitLoops := by
  induction e using Expr.induct with
  | int | float | bool | var | handle | binary | load | store => rfl
  | loop v min extent marks body _ _ ih => rw [flatten, countUnitLoops, countUnitLoops, ih]
  | block ss ih =>
      rw [flatten, countUnitLoops, countUnitLoops]
      refine count_flattenAll countUnitLoopsAll_append fun s hs => ?_
      rw [countUnitLoopsAll_statements, ih s hs]
      rfl

theorem countNestedBlocks_flatten (e : Expr) : e.flatten.countNestedBlocks = 0 := by
  induction e using Expr.induct with
  | int | float | bool | var | handle | binary | load | store => rfl
  | loop v min extent marks body _ _ ih => rw [flatten, countNestedBlocks, ih]
  | block ss ih =>
      rw [flatten, countNestedBlocks, flattenAll_eq, countNestedBlocksAll_eq_zero_iff]
      intro s hs
      obtain ⟨t, ht, hst⟩ := List.mem_flatMap.1 hs
      obtain ⟨u, hu, rfl⟩ := List.mem_map.1 ht
      have hflat := ih u hu
      cases hshape : u.flatten with
      | block ts =>
          rw [hshape] at hst hflat
          exact countNestedBlocksAll_eq_zero_iff.1 hflat s hst
      | _ =>
          rw [hshape] at hst hflat
          rw [List.mem_singleton.1 hst]
          exact ⟨hflat, rfl⟩

/-! ## Trees without anything to simplify -/

theorem removeUnitLoops_eq_self {e : Expr} (h : e.countUnitLoops = 0) :
    e.removeUnitLoops = e := by
  induction e using Expr.induct with
  | int | float | bool | var | handle | binary | load | store => rfl
  | loop v min extent marks body _ _ ih =>
      rw [countUnitLoops, Nat.add_eq_zero_iff] at h
      obtain ⟨hbody, hextent⟩ := h
      have hunit : extent.asInt? ≠ some 1 := fun hone => by simp [hone] at hextent
      rw [removeUnitLoops, if_neg hunit, ih hbody]
  | block ss ih =>
      rw [countUnitLoops, countUnitLoopsAll_eq_zero_iff] at h
      rw [removeUnitLoops, removeUnitLoopsAll_eq,
        List.map_congr_left fun s hs => ih s hs (h s hs), List.map_id']

theorem flatten_eq_self {e : Expr} (h : e.countNestedBlocks = 0) : e.flatten = e := by
  induction e using Expr.induct with
  | int | float | bool | var | handle | binary | load | store => rfl
  | loop v min extent marks body _ _ ih => rw [flatten, ih h]
  | block ss ih =>
      rw [countNestedBlocks, countNestedBlocksAll_eq_zero_iff] at h
      have hsingle : ∀ s ∈ ss, s.flatten.statements = [s] := by
        intro s hs
        obtain ⟨hflat, hblock⟩ := h s hs
        rw [ih s hs hflat]
        cases s with
        | block => cases hblock
        | _ => rfl
      rw [flatten, flattenAll_eq, List.flatMap_map, List.flatMap_congr hsingle]
      simp

/-- A placed tree is left as it is exactly if nothing is counted as changed. -/
theorem simplify_eq_self_iff {e : Expr} (h : Placed e) :
    e.simplify = e ↔ e.simplifyStats = .zero := by
  constructor
  · intro hself
    -- Flattening keeps the number of loops, so a tree that stays had no loop to remove.
    have hloops : e.removeUnitLoops.countLoops = e.countLoops := by
      rw [← countLoops_flatten]
      exact congrArg countLoops hself
    have hunit : e.countUnitLoops = 0 := by
      have hcount := h.countLoops_removeUnitLoops
      omega
    have hnested : e.removeUnitLoops.countNestedBlocks = 0 := by
      rw [removeUnitLoops_eq_self hunit]
      have hflat := countNestedBlocks_flatten e.removeUnitLoops
      rwa [← simplify, hself] at hflat
    rw [simplifyStats, hunit, hnested, SimplifyStats.zero]
  · intro hzero
    have hunit : e.countUnitLoops = 0 := congrArg SimplifyStats.loopsRemoved hzero
    have hnested : e.removeUnitLoops.countNestedBlocks = 0 :=
      congrArg SimplifyStats.blocksFlattened hzero
    rw [simplify, flatten_eq_self hnested, removeUnitLoops_eq_self hunit]

end Expr

end Reductions
