import Mathlib.Data.List.Induction
import Reductions.Proofs.Merging

/-!
# Merging while roots are added

A program grows by one root at a time, and its roots may be merged at any point
on the way. A merge keeps the statements and their order, and what it changes
does not show in a later merge: roots that were merged on the way give the same
single root as all of them merged at the end.
-/

namespace Reductions.Program

inductive Edit where
  | push (root : Expr)
  | merge

/-- The program after a change. A merge that fails leaves it as it is. -/
def edit (p : Program) : Edit → Program
  | .push root => p.push root
  | .merge => p.merge.1

def run (p : Program) (edits : List Edit) : Program :=
  edits.foldl edit p

def pushed (edits : List Edit) : List Expr :=
  edits.filterMap fun
    | .push root => some root
    | .merge => none

def statements (p : Program) : List Expr :=
  p.roots.flatMap Expr.statements

/-! ## One merge -/

theorem statements_mergedRoot (roots : List Expr) :
    (mergedRoot roots).statements = roots.flatMap Expr.statements := by
  by_cases hsingle : ∃ root, roots = [root]
  · obtain ⟨root, rfl⟩ := hsingle
    exact (List.flatMap_singleton _ _).symm
  · rw [mergedRoot_of_ne_singleton fun root heq => hsingle ⟨root, heq⟩, Expr.statements]

variable {p q : Program}

theorem merge_of_roots_eq_nil (h : p.roots = []) : p.merge = (p, .error .empty) := by
  rw [merge, h]

theorem merge_eq_error_iff : p.merge.2 = .error .empty ↔ p.roots = [] := by
  constructor
  · intro h
    by_contra hroots
    rw [merge_eq hroots] at h
    cases h
  · intro h
    rw [merge_of_roots_eq_nil h]

theorem statements_merge (p : Program) : p.merge.1.statements = p.statements := by
  by_cases hroots : p.roots = []
  · rw [merge_of_error (merge_eq_error_iff.2 hroots)]
  · rw [merge_eq hroots, statements, List.flatMap_singleton, statements_mergedRoot, statements]

/-! ## Programs that merge alike -/

/-- A merge does not show in the next one. -/
theorem merge_merge (p : Program) : p.merge.1.merge = p.merge := by
  by_cases hroots : p.roots = []
  · rw [merge_of_error (merge_eq_error_iff.2 hroots)]
  · rw [merge_eq hroots]
    rfl

theorem merge_push (h : p.roots ≠ []) (root : Expr) :
    (p.push root).merge = (⟨[.block (p.statements ++ root.statements)]⟩, .ok ()) := by
  have hroots : ∀ other, p.roots ++ [root] ≠ [other] := by
    intro other heq
    have hlength := congrArg List.length heq
    rw [List.length_append] at hlength
    exact h (List.eq_nil_of_length_eq_zero (Nat.succ.inj hlength))
  rw [push, merge_eq (List.append_ne_nil_of_left_ne_nil h _), mergedRoot_of_ne_singleton hroots,
    List.flatMap_append, List.flatMap_singleton, statements]

theorem merge_push_congr (h : p.merge = q.merge) (root : Expr) :
    (p.push root).merge = (q.push root).merge := by
  have hroots : p.roots = [] ↔ q.roots = [] := by
    rw [← merge_eq_error_iff, h, merge_eq_error_iff]
  by_cases hp : p.roots = []
  · rw [push, push, hp, hroots.1 hp]
  · have hq : q.roots ≠ [] := mt hroots.2 hp
    have hstatements : p.statements = q.statements := by
      rw [← statements_merge p, h, statements_merge]
    rw [merge_push hp, merge_push hq, hstatements]

/-! ## Runs -/

theorem run_concat (p : Program) (edits : List Edit) (e : Edit) :
    p.run (edits ++ [e]) = (p.run edits).edit e := by
  rw [run, List.foldl_append]
  rfl

theorem pushed_append (front back : List Edit) :
    pushed (front ++ back) = pushed front ++ pushed back :=
  List.filterMap_append

theorem statements_edit (p : Program) (e : Edit) :
    (p.edit e).statements = p.statements ++ (pushed [e]).flatMap Expr.statements := by
  cases e with
  | push root => exact List.flatMap_append
  | merge =>
      have hnone : (pushed [.merge]).flatMap Expr.statements = [] := rfl
      rw [hnone, List.append_nil, edit, statements_merge]

theorem statements_run (p : Program) (edits : List Edit) :
    (p.run edits).statements = p.statements ++ (pushed edits).flatMap Expr.statements := by
  induction edits using List.reverseRecOn with
  | nil => exact (List.append_nil _).symm
  | append_singleton edits e ih =>
      rw [run_concat, statements_edit, ih, pushed_append, List.flatMap_append, List.append_assoc]

/-- After any run a merge gives what it gives for all roots without the merges on the way. -/
theorem merge_run (p : Program) (edits : List Edit) :
    (p.run edits).merge = (Program.mk (p.roots ++ pushed edits)).merge := by
  induction edits using List.reverseRecOn with
  | nil => exact congrArg (fun roots => (Program.mk roots).merge) (List.append_nil _).symm
  | append_singleton edits e ih =>
      rw [run_concat, pushed_append, ← List.append_assoc]
      cases e with
      | push root => exact merge_push_congr ih root
      | merge =>
          rw [edit, merge_merge, ih]
          exact congrArg (fun roots => (Program.mk roots).merge) (List.append_nil _).symm

/-- A merge fails without roots, and then changes nothing; otherwise it leaves one root with the
same statements, and a second merge leaves that as it is. Whatever merges were made on the way, a
last one gives the root that merging all roots at once gives. -/
theorem merge_incremental (p : Program) (edits : List Edit) :
    ((p.run edits).roots = [] → (p.run edits).merge = (p.run edits, .error .empty)) ∧
    ((p.run edits).roots ≠ [] → ∃ root, (p.run edits).merge = (⟨[root]⟩, .ok ()) ∧
      (Program.mk [root]).statements = (p.run edits).statements ∧
      (Program.mk [root]).merge = (⟨[root]⟩, .ok ())) ∧
    (p.run edits).statements = p.statements ++ (pushed edits).flatMap Expr.statements ∧
    (p.run edits).merge = (Program.mk (p.roots ++ pushed edits)).merge ∧
    ∀ others, pushed others = pushed edits → (p.run others).merge = (p.run edits).merge := by
  refine ⟨merge_of_roots_eq_nil, fun hsome => ?_, statements_run p edits, merge_run p edits, ?_⟩
  · have hmerge := merge_eq hsome
    have hstatements := statements_merge (p.run edits)
    rw [hmerge] at hstatements
    exact ⟨_, hmerge, hstatements, rfl⟩
  · intro others hothers
    rw [merge_run, merge_run, hothers]

/-- A store, a merge that does nothing, a block, a merge, an empty block and a last merge. -/
def piecemeal : List Edit := [
  .push (.store "t" [.int 0] (.int 1)), .merge,
  .push (.block [.store "u" [.int 0] (.int 2), .block []]), .merge, .merge,
  .push (.block []), .merge]

def wholesale : List Edit :=
  (pushed piecemeal).map .push

theorem merge_incremental_piecemeal :
    ((Program.mk []).run [.merge]).roots = [] ∧ (Program.mk []).merge = (⟨[]⟩, .error .empty) ∧
      ((Program.mk []).run piecemeal).roots ≠ [] ∧ pushed wholesale = pushed piecemeal ∧
      ((Program.mk []).run wholesale).merge = ((Program.mk []).run piecemeal).merge ∧
      ∃ root, ((Program.mk []).run piecemeal).merge = (⟨[root]⟩, .ok ()) ∧
        (Program.mk [root]).merge = (⟨[root]⟩, .ok ()) ∧
        root = .block [.store "t" [.int 0] (.int 1), .store "u" [.int 0] (.int 2), .block []] := by
  obtain ⟨hnone, _⟩ := merge_incremental ⟨[]⟩ [.merge]
  obtain ⟨_, hsome, _, _, hothers⟩ := merge_incremental ⟨[]⟩ piecemeal
  have hempty : ((Program.mk []).run [.merge]).roots = [] := rfl
  have hroots : ((Program.mk []).run piecemeal).roots ≠ [] := List.cons_ne_nil _ _
  have hpushed : pushed wholesale = pushed piecemeal := rfl
  obtain ⟨root, hmerge, _, hagain⟩ := hsome hroots
  have hroot : [.block [.store "t" [.int 0] (.int 1), .store "u" [.int 0] (.int 2), .block []]] =
      [root] := congrArg (fun result => result.1.roots) hmerge
  exact ⟨hempty, hnone hempty, hroots, hpushed, hothers _ hpushed, root, hmerge, hagain,
    (List.singleton_inj.1 hroot).symm⟩

end Reductions.Program
