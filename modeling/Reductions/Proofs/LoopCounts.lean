import Reductions.Proofs.RemovedLoops

/-!
# Counting on the way

The passes are defined apart from the numbers that go with them. Here each pass
counts as it goes: it carries a number through the tree and adds one where it
takes something away. What comes out is the same tree and the same number. For a
placed tree this number is exact: it is what the tree has lost, and it is zero
where there was nothing to do.
-/

namespace Reductions.Expr

/-! ## Passes that count -/

mutual

/-- Removes the loops that run once, the inner ones first, and adds their number to `count`. -/
def removeCounting : Expr → Nat → Expr × Nat
  | loop v min extent marks body, count =>
    let (body, count) := body.removeCounting count
    if extent.asInt? = some 1 then ((substitute v min body).fold, count + 1)
    else (loop v min extent marks body, count)
  | block ss, count =>
    let (ss, count) := removeCountingAll ss count
    (block ss, count)
  | e, count => (e, count)

def removeCountingAll : List Expr → Nat → List Expr × Nat
  | [], count => ([], count)
  | s :: ss, count =>
    let (s, count) := s.removeCounting count
    let (ss, count) := removeCountingAll ss count
    (s :: ss, count)

end

mutual

/-- Flattens blocks and adds the number of blocks that are spliced to `count`. -/
def flattenCounting : Expr → Nat → Expr × Nat
  | loop v min extent marks body, count =>
    let (body, count) := body.flattenCounting count
    (loop v min extent marks body, count)
  | block ss, count =>
    let (ss, count) := flattenCountingAll ss count
    (block ss, count)
  | e, count => (e, count)

/-- Whether a statement is spliced is decided when it is flat itself. -/
def flattenCountingAll : List Expr → Nat → List Expr × Nat
  | [], count => ([], count)
  | s :: ss, count =>
    let (s, count) := s.flattenCounting count
    let (ss, count) := flattenCountingAll ss (count + if s.isBlock then 1 else 0)
    (s.statements ++ ss, count)

end

def simplifyCounting (e : Expr) : Expr × SimplifyStats :=
  let (e, removed) := e.removeCounting 0
  let (e, flattened) := e.flattenCounting 0
  (e, ⟨removed, flattened⟩)

theorem removeCountingAll_eq {ss : List Expr}
    (h : ∀ s ∈ ss, ∀ n, s.removeCounting n = (s.removeUnitLoops, n + s.countUnitLoops)) (n : Nat) :
    removeCountingAll ss n = (removeUnitLoopsAll ss, n + countUnitLoopsAll ss) := by
  induction ss generalizing n with
  | nil => rfl
  | cons s ss ih =>
      have hhead := h s List.mem_cons_self n
      have htail := ih (fun t ht => h t (List.mem_cons_of_mem _ ht)) (n + s.countUnitLoops)
      rw [removeCountingAll, hhead]
      dsimp only
      rw [htail, removeUnitLoopsAll, countUnitLoopsAll, Nat.add_assoc]

/-- The number that the pass carries along is the one that the original tree tells. -/
theorem removeCounting_eq (e : Expr) (n : Nat) :
    e.removeCounting n = (e.removeUnitLoops, n + e.countUnitLoops) := by
  induction e using Expr.induct generalizing n with
  | int | float | bool | var | handle | binary | load | store => rfl
  | loop v min extent marks body _ _ ih =>
      rw [removeCounting, ih, removeUnitLoops, countUnitLoops]
      by_cases hunit : extent.asInt? = some 1
      · simp only [if_pos hunit, Nat.add_assoc]
      · simp only [if_neg hunit, Nat.add_zero]
  | block ss ih =>
      rw [removeCounting, removeCountingAll_eq ih, removeUnitLoops, countUnitLoops]

theorem flattenCountingAll_eq {ss : List Expr}
    (h : ∀ s ∈ ss, ∀ n, s.flattenCounting n = (s.flatten, n + s.countNestedBlocks)) (n : Nat) :
    flattenCountingAll ss n = (flattenAll ss, n + countNestedBlocksAll ss) := by
  induction ss generalizing n with
  | nil => rfl
  | cons s ss ih =>
      have hhead := h s List.mem_cons_self n
      have htail := ih fun t ht => h t (List.mem_cons_of_mem _ ht)
      rw [flattenCountingAll, hhead]
      dsimp only
      rw [isBlock_flatten, htail, flattenAll, countNestedBlocksAll, Nat.add_assoc, Nat.add_assoc,
        Nat.add_assoc]

theorem flattenCounting_eq (e : Expr) (n : Nat) :
    e.flattenCounting n = (e.flatten, n + e.countNestedBlocks) := by
  induction e using Expr.induct generalizing n with
  | int | float | bool | var | handle | binary | load | store => rfl
  | loop v min extent marks body _ _ ih => rw [flattenCounting, ih, flatten, countNestedBlocks]
  | block ss ih =>
      rw [flattenCounting, flattenCountingAll_eq ih, flatten, countNestedBlocks]

theorem simplifyCounting_eq (e : Expr) : e.simplifyCounting = (e.simplify, e.simplifyStats) := by
  rw [simplifyCounting, removeCounting_eq]
  dsimp only
  rw [flattenCounting_eq, Nat.zero_add, Nat.zero_add, simplify, simplifyStats]

/-! ## Exact numbers -/

theorem removeUnitLoops_eq_self_iff {e : Expr} (h : Placed e) :
    e.removeUnitLoops = e ↔ e.countUnitLoops = 0 := by
  refine ⟨fun hself => ?_, removeUnitLoops_eq_self⟩
  have hcount := h.countLoops_removeUnitLoops
  rw [hself] at hcount
  omega

/-- Removal counts exactly. The pass gives the number of loops that the tree loses; the loops that
do not run once stay, in their order. The number is zero exactly if no loop in statement position
has the constant extent one, and exactly if the tree stays as it is. Flattening takes no loop from
any tree, so both passes together report no change exactly if the tree stays as it is. -/
theorem loop_removal_exact {e : Expr} (h : Placed e) :
    e.removeCounting 0 = (e.removeUnitLoops, e.countUnitLoops) ∧
    e.removeUnitLoops.countLoops + e.countUnitLoops = e.countLoops ∧
    e.removeUnitLoops.loops.map Loop.label =
      (e.loops.filter fun l => !l.isUnit).map Loop.label ∧
    (e.countUnitLoops = 0 ↔ ∀ v min marks body, ¬ StandsIn (.loop v min (.int 1) marks body) e) ∧
    (e.countUnitLoops = 0 ↔ e.removeUnitLoops = e) ∧
    (∀ t : Expr, t.flatten.countLoops = t.countLoops) ∧
    e.simplifyCounting = (e.simplify, e.simplifyStats) ∧
    (e.simplifyStats.hasChanges = false ↔ e.simplify = e) := by
  have hpass : e.removeCounting 0 = (e.removeUnitLoops, e.countUnitLoops) := by
    rw [removeCounting_eq, Nat.zero_add]
  refine ⟨hpass, h.countLoops_removeUnitLoops, h.labels_removeUnitLoops, countUnitLoops_eq_zero_iff,
    (removeUnitLoops_eq_self_iff h).symm, countLoops_flatten, simplifyCounting_eq e, ?_⟩
  rw [SimplifyStats.hasChanges_eq_false_iff, simplify_eq_self_iff h]

/-- A loop that runs once around a variable that stands as a statement, a loop that holds another
such loop, and a block with a loop that binds the outer variable again. -/
def terrace : Expr :=
  .loop "i" (.var "n") (.int 1) .empty (.block [
    .var "i",
    .loop "j" (.var "i") (.binary .add (.var "i") (.int 2)) .empty
      (.block [.loop "k" (.var "j") (.int 1) .reduction
        (.store "t" [.var "i", .var "k"] (.int 1))]),
    .block [.loop "i" (.var "i") (.int 3) .empty (.store "u" [.var "i"] (.var "n"))]])

theorem loop_removal_exact_terrace :
    Placed terrace ∧
      terrace.removeCounting 0 = (terrace.removeUnitLoops, 2) ∧
      terrace.removeUnitLoops.countLoops + 2 = 4 ∧
      terrace.removeUnitLoops.loops.map Loop.label = [("j", .empty), ("i", .empty)] ∧
      StandsIn (.loop "k" (.var "j") (.int 1) .reduction
        (.store "t" [.var "i", .var "k"] (.int 1))) terrace ∧
      terrace.removeUnitLoops ≠ terrace ∧
      terrace.simplifyCounting = (terrace.simplify, ⟨2, 1⟩) ∧ terrace.simplify ≠ terrace := by
  have hvar (v : String) : IsValue (.var v) := .var v
  have hplaced : Placed terrace := by
    refine .loop (hvar "n") (.int 1) (.block ?_)
    simp only [List.mem_cons, List.not_mem_nil, or_false, forall_eq_or_imp, forall_eq]
    refine ⟨.value (hvar "i"), ?_, ?_⟩
    · refine .loop (hvar "i") (.binary (hvar "i") (.int 2)) (.block ?_)
      simpa using Placed.loop (hvar "j") (.int 1)
        (.store (by simpa using ⟨hvar "i", hvar "k"⟩) (.int 1))
    · refine .block ?_
      simpa using Placed.loop (hvar "i") (.int 3) (.store (by simpa using hvar "i") (hvar "n"))
  have htwo : terrace.countUnitLoops = 2 := by rfl
  obtain ⟨hpass, hcount, hlabels, -, hself, -, hboth, hchanges⟩ := loop_removal_exact hplaced
  refine ⟨hplaced, ?_, ?_, hlabels, ?_, ?_, hboth, ?_⟩
  · rw [hpass, htwo]
  · rw [htwo] at hcount
    exact hcount
  · exact .body (.statement (.tail _ (.head _)) (.body (.statement (.head _) .here)))
  · intro heq
    rw [hself.2 heq] at htwo
    cases htwo
  · intro heq
    have hnone := hchanges.2 heq
    cases hnone

/-- A loop in a bound is put in where the variable stands as a statement, so that one loop is removed
and none is missing. -/
example :
    let tree : Expr := .loop "i" (.loop "k" (.int 0) (.int 2) .empty (.block [])) (.int 1) .empty
      (.var "i")
    (tree.countUnitLoops, tree.removeUnitLoops.countLoops, tree.countLoops) = (1, 1, 1) := by
  rfl

end Reductions.Expr
