import Reductions.Proofs.Placement

/-!
# The normal form of simplification

Loops are visited from the inside out and each of them once. When a loop that
runs once goes away, its lower bound is put into the extents of the loops left
in its body and constants are folded there, which can turn such an extent into
the constant one. Nothing looks at it again. So one run gives a tree that
another run leaves alone exactly if no extent turns into one in that way.
-/

namespace Reductions.Expr

/-! ## What removed loops leave in their bodies -/

/-- The tree with an expression put in for each variable in turn and constants folded after each. -/
def putIn (bindings : List (String × Expr)) (e : Expr) : Expr :=
  bindings.foldl (fun e binding => (substitute binding.1 binding.2 e).fold) e

/-- The bindings as they reach the body of a loop over `v`, where `v` stands for itself. -/
def shadow (v : String) (bindings : List (String × Expr)) : List (String × Expr) :=
  bindings.map fun binding => if v = binding.1 then (v, var v) else binding

mutual

/-- No loop comes to run once by what the loops that run once around it leave in its extent. The
bindings are the variables and lower bounds of those loops, the innermost first. -/
def loopsStay (bindings : List (String × Expr)) : Expr → Bool
  | loop v min extent _ body =>
    if extent.asInt? = some 1 then loopsStay ((v, min) :: bindings) body
    else (putIn bindings extent).asInt? != some 1 && loopsStay (shadow v bindings) body
  | block ss => loopsStayAll bindings ss
  | _ => true

def loopsStayAll (bindings : List (String × Expr)) : List Expr → Bool
  | [] => true
  | s :: ss => loopsStay bindings s && loopsStayAll bindings ss

end

theorem substitute_var_self (v : String) (e : Expr) : substitute v (var v) e = e := by
  induction e using Expr.induct with
  | int | float | bool | handle => rfl
  | var x =>
      rw [substitute]
      by_cases hx : x = v
      · rw [if_pos hx, hx]
      · rw [if_neg hx]
  | binary op lhs rhs ihl ihr => rw [substitute, ihl, ihr]
  | load tensor indices ih =>
      rw [substitute, substituteAll_eq, List.map_congr_left ih, List.map_id']
  | store tensor indices value ihi ihv =>
      rw [substitute, substituteAll_eq, List.map_congr_left ihi, List.map_id', ihv]
  | loop x min extent marks body ihm ihe ihb =>
      rw [substitute, ihm, ihe, ihb, ite_self]
  | block ss ih => rw [substitute, substituteAll_eq, List.map_congr_left ih, List.map_id']

theorem putIn_loop (bindings : List (String × Expr)) (v : String) (min extent : Expr)
    (marks : LoopMarks) (body : Expr) :
    putIn bindings (loop v min extent marks body) =
      loop v (putIn bindings min) (putIn bindings extent) marks
        (putIn (shadow v bindings) body) := by
  induction bindings generalizing min extent body with
  | nil => rfl
  | cons binding bindings ih =>
      obtain ⟨x, r⟩ := binding
      -- A loop over `x` keeps its body; putting `x` in for itself keeps it as well.
      have hbody : (if v = x then body else substitute x r body).fold =
          putIn (shadow v [(x, r)]) body := by
        by_cases hx : v = x
        · simp [putIn, shadow, hx, substitute_var_self]
        · simp [putIn, shadow, hx]
      rw [putIn, List.foldl_cons, substitute, fold, hbody]
      exact ih _ _ _

theorem putIn_block (bindings : List (String × Expr)) (ss : List Expr) :
    putIn bindings (block ss) = block (ss.map (putIn bindings)) := by
  induction bindings generalizing ss with
  | nil => exact congrArg block (List.map_id' ss).symm
  | cons binding bindings ih =>
      rw [putIn, List.foldl_cons, substitute, fold, foldAll_eq, substituteAll_eq]
      calc putIn bindings (block ((ss.map (substitute binding.1 binding.2)).map fold))
          = block (((ss.map (substitute binding.1 binding.2)).map fold).map (putIn bindings)) :=
            ih _
        _ = block (ss.map (putIn (binding :: bindings))) := by
            rw [List.map_map, List.map_map]
            rfl

theorem putIn_store (bindings : List (String × Expr)) (tensor : String) (indices : List Expr)
    (value : Expr) :
    ∃ indices' value', putIn bindings (store tensor indices value) =
      store tensor indices' value' := by
  induction bindings generalizing indices value with
  | nil => exact ⟨indices, value, rfl⟩
  | cons binding bindings ih => exact ih _ _

theorem isValue_putIn {bindings : List (String × Expr)} (hvalues : ∀ b ∈ bindings, IsValue b.2)
    {e : Expr} (h : IsValue e) : IsValue (putIn bindings e) := by
  induction bindings generalizing e with
  | nil => exact h
  | cons binding bindings ih =>
      have hhead : IsValue binding.2 := hvalues binding List.mem_cons_self
      have htail : ∀ b ∈ bindings, IsValue b.2 := fun b hb =>
        hvalues b (List.mem_cons_of_mem _ hb)
      exact ih htail (h.substitute binding.1 hhead).fold

theorem isValue_shadow {bindings : List (String × Expr)} (hvalues : ∀ b ∈ bindings, IsValue b.2)
    (v : String) : ∀ b ∈ shadow v bindings, IsValue b.2 := by
  intro b hb
  obtain ⟨c, hc, rfl⟩ := List.mem_map.1 hb
  by_cases hv : v = c.1
  · rw [if_pos hv]
    exact .var v
  · rw [if_neg hv]
    exact hvalues c hc

theorem loopsStayAll_eq_true_iff {bindings : List (String × Expr)} {ss : List Expr} :
    loopsStayAll bindings ss = true ↔ ∀ s ∈ ss, loopsStay bindings s = true := by
  induction ss with
  | nil => simp [loopsStayAll]
  | cons s ss ih => simp [loopsStayAll, ih]

/-! ## One run -/

/-- What is left of a tree, with the bindings around it put in, has no loop that runs once exactly
if no extent turns into one. The induction is on the tree; a removed loop adds its binding, a loop
that stays hides the ones of its variable. -/
theorem countUnitLoops_putIn {e : Expr} (h : Placed e) {bindings : List (String × Expr)}
    (hvalues : ∀ b ∈ bindings, IsValue b.2) :
    (putIn bindings e.removeUnitLoops).countUnitLoops = 0 ↔ e.loopsStay bindings = true := by
  induction h generalizing bindings with
  | @value e he =>
      have hzero : (putIn bindings e.removeUnitLoops).countUnitLoops = 0 := by
        rw [he.removeUnitLoops_eq_self]
        exact (isValue_putIn hvalues he).countUnitLoops_eq_zero
      have hstays : e.loopsStay bindings = true := by cases he <;> rfl
      exact iff_of_true hzero hstays
  | @store tensor indices value _ _ =>
      obtain ⟨indices', value', heq⟩ := putIn_store bindings tensor indices value
      have hzero : (putIn bindings (store tensor indices value)).countUnitLoops = 0 := by
        rw [heq]
        rfl
      exact iff_of_true hzero rfl
  | @loop v min extent marks body hmin _ _ ih =>
      rw [removeUnitLoops, loopsStay]
      by_cases hunit : extent.asInt? = some 1
      · -- The loop goes away and its lower bound is the first to reach the body.
        have hmore : ∀ b ∈ (v, min) :: bindings, IsValue b.2 := by
          simpa using ⟨hmin, fun x r hb => hvalues (x, r) hb⟩
        rw [if_pos hunit, if_pos hunit]
        exact ih hmore
      · -- The loop stays, with the bindings put into its own extent.
        rw [if_neg hunit, if_neg hunit, putIn_loop, countUnitLoops, Nat.add_eq_zero_iff,
          ih (isValue_shadow hvalues v)]
        by_cases hone : (putIn bindings extent).asInt? = some 1
        · simp [hone]
        · simp [hone]
  | @block ss _ ih =>
      rw [removeUnitLoops, removeUnitLoopsAll_eq, putIn_block, countUnitLoops,
        countUnitLoopsAll_eq_zero_iff, loopsStay, loopsStayAll_eq_true_iff]
      simp only [List.forall_mem_map]
      exact forall₂_congr fun s hs => ih s hs hvalues

theorem countUnitLoops_simplify {e : Expr} (h : Placed e) :
    e.simplify.countUnitLoops = 0 ↔ e.loopsStay [] = true := by
  have hnone : ∀ b ∈ ([] : List (String × Expr)), IsValue b.2 := by simp
  rw [simplify, countUnitLoops_flatten]
  exact countUnitLoops_putIn h hnone

/-- What another run would change is a loop that runs once, if anything. -/
theorem simplifyStats_simplify (e : Expr) :
    e.simplify.simplifyStats = .zero ↔ e.simplify.countUnitLoops = 0 := by
  constructor
  · exact fun hzero => congrArg SimplifyStats.loopsRemoved hzero
  · intro hunit
    have hnested : e.simplify.removeUnitLoops.countNestedBlocks = 0 := by
      rw [removeUnitLoops_eq_self hunit]
      exact countNestedBlocks_flatten e.removeUnitLoops
    rw [simplifyStats, hunit, hnested, SimplifyStats.zero]

/-- One run leaves no block in a block. It leaves no loop that runs once, and nothing for another
run to change or to count, exactly if no extent turns into one when lower bounds are put in. -/
theorem simplify_normal_iff {e : Expr} (h : Placed e) :
    (∀ ss, StandsIn (.block ss) e.simplify → ∀ s ∈ ss, s.isBlock = false) ∧
    (e.loopsStay [] = true ↔
      ∀ v min marks body, ¬ StandsIn (.loop v min (.int 1) marks body) e.simplify) ∧
    (e.loopsStay [] = true ↔ e.simplify.simplifyStats = .zero) ∧
    (e.loopsStay [] = true ↔ e.simplify.simplify = e.simplify) := by
  have hstays := countUnitLoops_simplify h
  refine ⟨?_, ?_, ?_, ?_⟩
  · exact countNestedBlocks_eq_zero_iff.1 (countNestedBlocks_flatten e.removeUnitLoops)
  · rw [← hstays, countUnitLoops_eq_zero_iff]
  · rw [← hstays, simplifyStats_simplify]
  · rw [← hstays, simplify_eq_self_iff h.simplify, simplifyStats_simplify]

def trapezoid : Expr :=
  .loop "i" (.int 2) (.int 1) .empty (.block [
    .loop "j" (.int 0) (.binary .add (.var "i") (.int 3)) .empty
      (.block [.store "t" [.var "i", .var "j"] (.int 1)]),
    .block [.loop "k" (.var "i") (.int 1) .empty (.store "u" [.var "k"] (.int 0))]])

theorem simplify_normal_trapezoid :
    Placed trapezoid ∧ trapezoid.loopsStay [] = true ∧
      trapezoid.simplify.simplifyStats = .zero ∧
      trapezoid.simplify.simplify = trapezoid.simplify := by
  have hvar (v : String) : IsValue (.var v) := .var v
  have hplaced : Placed trapezoid := by
    refine .loop (.int 2) (.int 1) (.block ?_)
    simp only [List.mem_cons, List.not_mem_nil, or_false, forall_eq_or_imp, forall_eq]
    constructor
    · refine .loop (.int 0) (.binary (.var "i") (.int 3)) (.block ?_)
      simpa using Placed.store (by simpa using ⟨hvar "i", hvar "j"⟩) (.int 1)
    · refine .block ?_
      simpa using Placed.loop (.var "i") (.int 1) (.store (by simpa using hvar "k") (.int 0))
  have hstays : trapezoid.loopsStay [] = true := by decide
  obtain ⟨_, _, hstats, hsame⟩ := simplify_normal_iff hplaced
  exact ⟨hplaced, hstays, hstats.1 hstays, hsame.1 hstays⟩

/-! ## Loops that come to run once -/

/-- The inner loop runs over what the outer one has reached. -/
def triangle : Expr :=
  .loop "i" (.int 0) (.int 1) .empty
    (.loop "j" (.int 0) (.binary .add (.var "i") (.int 1)) .empty
      (.store "t" [.var "j"] (.int 1)))

/-- The extent of the inner loop is not a constant but folds to one. -/
def difference : Expr :=
  .loop "i" (.int 0) (.int 1) .empty
    (.loop "j" (.int 0) (.binary .sub (.int 2) (.int 1)) .empty
      (.store "t" [.var "j"] (.int 1)))

/-- In both trees a loop that runs once is left, and another run removes it. -/
theorem simplify_not_normal :
    (Placed triangle ∧
      StandsIn (.loop "j" (.int 0) (.int 1) .empty (.store "t" [.var "j"] (.int 1)))
        triangle.simplify ∧
      triangle.simplify.simplifyStats = ⟨1, 0⟩ ∧
      triangle.simplify.simplify ≠ triangle.simplify) ∧
    (Placed difference ∧
      StandsIn (.loop "j" (.int 0) (.int 1) .empty (.store "t" [.var "j"] (.int 1)))
        difference.simplify ∧
      difference.simplify.simplifyStats = ⟨1, 0⟩ ∧
      difference.simplify.simplify ≠ difference.simplify) := by
  have hstore : Placed (.store "t" [.var "j"] (.int 1)) :=
    .store (by simpa using IsValue.var "j") (.int 1)
  have htriangle : triangle.simplify =
      .loop "j" (.int 0) (.int 1) .empty (.store "t" [.var "j"] (.int 1)) := by rfl
  have hdifference : difference.simplify =
      .loop "j" (.int 0) (.int 1) .empty (.store "t" [.var "j"] (.int 1)) := by rfl
  have hagain : (Expr.loop "j" (.int 0) (.int 1) .empty
      (.store "t" [.var "j"] (.int 1))).simplify = .store "t" [.int 0] (.int 1) := by rfl
  refine ⟨⟨?_, ?_, ?_, ?_⟩, ?_, ?_, ?_, ?_⟩
  · exact .loop (.int 0) (.int 1) (.loop (.int 0) (.binary (.var "i") (.int 1)) hstore)
  · rw [htriangle]
    exact .here
  · rw [htriangle]
    rfl
  · rw [htriangle, hagain]
    exact nofun
  · exact .loop (.int 0) (.int 1) (.loop (.int 0) (.binary (.int 2) (.int 1)) hstore)
  · rw [hdifference]
    exact .here
  · rw [hdifference]
    rfl
  · rw [hdifference, hagain]
    exact nofun

end Reductions.Expr
