import Reductions.Proofs.SimplifiedAccesses

/-!
# Iterations of a run

Each store of a run together with the loops around it and the values that their
variables have. `Expr.iterations` follows `Expr.exec`. Simplification takes the
loops that run once out of every iteration and changes nothing else, if all
extents are constants.
-/

namespace Reductions

structure Loop where
  name : String
  extent : Expr
  marks : LoopMarks

structure Trip where
  loop : Loop
  value : Int64

/-- A store, and the rounds that it is part of, outermost first. -/
structure Iteration where
  trips : List Trip
  tensor : String
  place : Index

def Loop.isUnit (l : Loop) : Bool :=
  decide (l.extent.asInt? = some 1)

namespace Iteration

def within (t : Trip) (a : Iteration) : Iteration :=
  { a with trips := t :: a.trips }

def surviving (a : Iteration) : Iteration :=
  { a with trips := a.trips.filter fun t => !t.loop.isUnit }

theorem surviving_within_of_isUnit {t : Trip} (h : t.loop.isUnit = true) (a : Iteration) :
    (a.within t).surviving = a.surviving := by
  simp [surviving, within, h]

theorem surviving_within {t : Trip} (h : t.loop.isUnit = false) (a : Iteration) :
    (a.within t).surviving = a.surviving.within t := by
  simp [surviving, within, h]

end Iteration

namespace Expr

variable {V : Type}

/-- What steps that run one after another meet, each with the memory that the ones before left. -/
def visited {α : Type} (run : Memory V → α → Memory V) : List α → Memory V → List (Memory V × α)
  | [], _ => []
  | x :: xs, mem => (mem, x) :: visited run xs (run mem x)

mutual

def iterations (I : Interpretation V) : Expr → Env → Memory V → List Iteration
  | store tensor indices _, env, mem => [⟨[], tensor, evalIndex I env mem indices⟩]
  | loop v min extent marks body, env, mem =>
    (visited (fun m w => body.exec I (Function.update env v w) m)
      (trips (min.eval I env mem).word (extent.eval I env mem).word) mem).flatMap fun (m, w) =>
        (body.iterations I (Function.update env v w) m).map (.within ⟨⟨v, extent, marks⟩, w⟩)
  | block ss, env, mem => iterationsAll I ss env mem
  | int _, _, _ | float _, _, _ | bool _, _, _ | var _, _, _ | handle _, _, _
  | binary _ _ _, _, _ | load _ _, _, _ => []

def iterationsAll (I : Interpretation V) : List Expr → Env → Memory V → List Iteration
  | [], _, _ => []
  | s :: ss, env, mem => s.iterations I env mem ++ iterationsAll I ss env (s.exec I env mem)

end

mutual

/-- The loops in statement position, from the outside in. -/
def loops : Expr → List Loop
  | loop v _ extent marks body => ⟨v, extent, marks⟩ :: body.loops
  | block ss => loopsAll ss
  | _ => []

def loopsAll : List Expr → List Loop
  | [] => []
  | s :: ss => s.loops ++ loopsAll ss

end

variable {I : Interpretation V} {env : Env} {mem : Memory V}

/-! ## Steps one after another -/

section Visited

variable {α β γ : Type} {run run' : Memory V → α → Memory V} {xs : List α}

theorem mem_of_mem_visited {m : Memory V} {x : α} (h : (m, x) ∈ visited run xs mem) : x ∈ xs := by
  induction xs generalizing mem with
  | nil => cases h
  | cons y xs ih =>
      rw [visited, List.mem_cons] at h
      rcases h with heq | htail
      · rw [(Prod.mk.inj heq).2]
        exact List.mem_cons_self
      · exact List.mem_cons_of_mem _ (ih htail)

theorem visited_congr (h : ∀ x ∈ xs, ∀ m, run m x = run' m x) (mem : Memory V) :
    visited run xs mem = visited run' xs mem := by
  induction xs generalizing mem with
  | nil => rfl
  | cons x xs ih =>
      rw [visited, visited, h x List.mem_cons_self, ih fun y hy => h y (List.mem_cons_of_mem _ hy)]

theorem visited_map (f : β → α) (xs : List β) (mem : Memory V) :
    visited run (xs.map f) mem =
      (visited (fun m x => run m (f x)) xs mem).map fun (m, x) => (m, f x) := by
  induction xs generalizing mem with
  | nil => rfl
  | cons x xs ih => rw [List.map_cons, visited, visited, ih, List.map_cons]

theorem flatMap_visited {f : Memory V × α → List γ} {g : α → List γ}
    (h : ∀ x ∈ xs, ∀ m, f (m, x) = g x) (mem : Memory V) :
    (visited run xs mem).flatMap f = xs.flatMap g := by
  induction xs generalizing mem with
  | nil => rfl
  | cons x xs ih =>
      rw [visited, List.flatMap_cons, List.flatMap_cons, h x List.mem_cons_self,
        ih fun y hy => h y (List.mem_cons_of_mem _ hy)]

end Visited

theorem iterationsAll_eq (ss : List Expr) (env : Env) (mem : Memory V) :
    iterationsAll I ss env mem =
      (visited (fun m s => s.exec I env m) ss mem).flatMap fun (m, s) => s.iterations I env m := by
  induction ss generalizing mem with
  | nil => rfl
  | cons s ss ih => rw [iterationsAll, visited, List.flatMap_cons, ih]

theorem iterationsAll_singleton (s : Expr) (env : Env) (mem : Memory V) :
    iterationsAll I [s] env mem = s.iterations I env mem := by
  rw [iterationsAll, iterationsAll, List.append_nil]

theorem iterationsAll_append (ss ts : List Expr) (env : Env) (mem : Memory V) :
    iterationsAll I (ss ++ ts) env mem =
      iterationsAll I ss env mem ++ iterationsAll I ts env (execAll I ss env mem) := by
  induction ss generalizing mem with
  | nil => rfl
  | cons s ss ih =>
      rw [List.cons_append, iterationsAll, iterationsAll, execAll, ih, List.append_assoc]

theorem iterationsAll_statements (e : Expr) (env : Env) (mem : Memory V) :
    iterationsAll I e.statements env mem = e.iterations I env mem := by
  cases e with
  | block ss => rfl
  | _ => exact iterationsAll_singleton _ env mem

theorem loopsAll_eq (ss : List Expr) : loopsAll ss = ss.flatMap loops := by
  induction ss with
  | nil => rfl
  | cons s ss ih => rw [loopsAll, ih, List.flatMap_cons]

theorem loops_statements (e : Expr) : e.statements.flatMap loops = e.loops := by
  cases e with
  | block ss => rw [statements, loops, loopsAll_eq]
  | _ => simp [statements]

theorem iterations_loop_one (v : String) (first : Int64) {extent : Expr}
    (hunit : extent.asInt? = some 1) (marks : LoopMarks) (body : Expr) (env : Env)
    (mem : Memory V) :
    (loop v (int first) extent marks body).iterations I env mem =
      (body.iterations I (Function.update env v first) mem).map
        (.within ⟨⟨v, extent, marks⟩, first⟩) := by
  have htrips : trips ((int first).eval I env mem).word (extent.eval I env mem).word = [first] := by
    rw [eq_int_of_asInt? hunit]
    exact trips_one first
  rw [iterations, htrips, visited, visited, List.flatMap_cons, List.flatMap_nil, List.append_nil]

/-! ## Flattening -/

theorem loops_flatten (e : Expr) : e.flatten.loops = e.loops := by
  induction e using Expr.induct with
  | int | float | bool | var | handle | binary | load | store => rfl
  | loop v min extent marks body _ _ ih => rw [flatten, loops, loops, ih]
  | block ss ih =>
      rw [flatten, loops, loops, loopsAll_eq, loopsAll_eq, flattenAll_eq, List.flatMap_assoc,
        List.flatMap_map]
      refine List.flatMap_congr fun s hs => ?_
      rw [loops_statements, ih s hs]

theorem iterationsAll_flatMap_statements (ss : List Expr) (env : Env) (mem : Memory V) :
    iterationsAll I (ss.flatMap statements) env mem = iterationsAll I ss env mem := by
  induction ss generalizing mem with
  | nil => rfl
  | cons s ss ih =>
      rw [List.flatMap_cons, iterationsAll_append, iterationsAll_statements, execAll_statements, ih,
        iterationsAll]

theorem iterations_flatten (e : Expr) (env : Env) (mem : Memory V) :
    e.flatten.iterations I env mem = e.iterations I env mem := by
  induction e using Expr.induct generalizing env mem with
  | int | float | bool | var | handle | binary | load | store => rfl
  | loop v min extent marks body _ _ ih =>
      rw [flatten, iterations, iterations, visited_congr fun w _ m => exec_flatten I body _ m]
      refine List.flatMap_congr ?_
      rintro ⟨m, w⟩ _
      exact congrArg (List.map _) (ih _ m)
  | block ss ih =>
      rw [flatten, iterations, iterations, flattenAll_eq, iterationsAll_flatMap_statements,
        iterationsAll_eq, iterationsAll_eq, visited_map,
        visited_congr fun s _ m => exec_flatten I s env m, List.flatMap_map]
      refine List.flatMap_congr ?_
      rintro ⟨m, s⟩ h
      exact ih s (mem_of_mem_visited h) env m

/-! ## Putting a constant for a variable -/

def Counted (e : Expr) : Prop :=
  ∀ l ∈ e.loops, ∃ n, l.extent = int n

theorem counted_loop {v : String} {min extent : Expr} {marks : LoopMarks} {body : Expr} :
    Counted (loop v min extent marks body) ↔ (∃ n, extent = int n) ∧ Counted body := by
  simp [Counted, loops]

theorem counted_block {ss : List Expr} : Counted (block ss) ↔ ∀ s ∈ ss, Counted s := by
  simp only [Counted, loops, loopsAll_eq, List.mem_flatMap]
  constructor
  · exact fun h s hs l hl => h l ⟨s, hs, hl⟩
  · rintro h l ⟨s, hs, hl⟩
    exact h s hs l hl

theorem loops_substitute_int (v : String) (n : Int64) {e : Expr} (h : Counted e) :
    (substitute v (int n) e).loops = e.loops := by
  induction e using Expr.induct with
  | int | float | bool | handle | binary | load | store => rfl
  | var x =>
      rw [substitute]
      split <;> rfl
  | loop x min extent marks body _ _ ih =>
      obtain ⟨⟨k, rfl⟩, hbody⟩ := counted_loop.1 h
      rw [substitute, loops, loops]
      by_cases hx : x = v
      · rw [if_pos hx]
        rfl
      · rw [if_neg hx, ih hbody]
        rfl
  | block ss ih =>
      rw [substitute, loops, loops, loopsAll_eq, loopsAll_eq, substituteAll_eq, List.flatMap_map]
      exact List.flatMap_congr fun s hs => ih s hs (counted_block.1 h s hs)

theorem iterations_substitute_int (v : String) (n : Int64) {e : Expr} (h : Counted e) (env : Env)
    (mem : Memory V) :
    (substitute v (int n) e).iterations I env mem =
      e.iterations I (Function.update env v n) mem := by
  have hvalue (env : Env) (mem : Memory V) : (int n).eval I env mem = I.ofWord n := rfl
  induction e using Expr.induct generalizing env mem with
  | int | float | bool | handle | binary | load => rfl
  | var x =>
      rw [substitute]
      split <;> rfl
  | store tensor indices value _ _ =>
      rw [substitute, iterations, iterations, evalIndex_substituteAll (hvalue env mem)]
  | loop x min extent marks body _ _ ih =>
      obtain ⟨⟨k, rfl⟩, hbody⟩ := counted_loop.1 h
      have hextent : substitute v (int n) (int k) = int k := rfl
      rw [substitute, iterations, iterations, hextent, eval_substitute (hvalue env mem)]
      by_cases hx : x = v
      · -- The loop binds `v` itself, so its body sees neither value.
        rw [if_pos hx, hx]
        simp only [Function.update_idem]
        rfl
      · rw [if_neg hx, visited_congr fun w _ m => exec_substitute_int v n body _ m]
        simp only [ih hbody, Function.update_comm (Ne.symm hx)]
        rfl
  | block ss ih =>
      rw [substitute, iterations, iterations, substituteAll_eq, iterationsAll_eq, iterationsAll_eq,
        visited_map, visited_congr fun s _ m => exec_substitute_int v n s env m, List.flatMap_map]
      refine List.flatMap_congr ?_
      rintro ⟨m, s⟩ hvisited
      have hs := mem_of_mem_visited hvisited
      exact ih s hs (counted_block.1 h s hs) env m

end Expr

/-! ## Loops that run once -/

namespace Settled

variable {V : Type} {I : Interpretation V} {e : Expr}

theorem loops_removeUnitLoops (h : Settled e) (hcounted : e.Counted) :
    e.removeUnitLoops.loops = e.loops.filter fun l => !l.isUnit := by
  induction h with
  | int | float | bool | var | load | combine | store => rfl
  | @loop v first extent marks body _ hbody _ ih =>
      obtain ⟨_, hbodyCounted⟩ := Expr.counted_loop.1 hcounted
      have hrest := ih hbodyCounted
      rw [Expr.removeUnitLoops, Expr.loops, List.filter_cons]
      by_cases hunit : extent.asInt? = some 1
      · have hsettled := hbody.removeUnitLoops.substitute_int v first
        have hcounted' : body.removeUnitLoops.Counted := by
          rw [Expr.Counted, hrest]
          exact fun l hl => hbodyCounted l (List.mem_of_mem_filter hl)
        rw [if_pos hunit, hsettled.fold_eq_self, Expr.loops_substitute_int v first hcounted', hrest]
        simp [Loop.isUnit, hunit]
      · rw [if_neg hunit, Expr.loops, hrest]
        simp [Loop.isUnit, hunit]
  | @block ss hss ih =>
      rw [Expr.removeUnitLoops, Expr.removeUnitLoopsAll_eq, Expr.loops, Expr.loops,
        Expr.loopsAll_eq, Expr.loopsAll_eq, List.flatMap_map, List.filter_flatMap]
      exact List.flatMap_congr fun s hs => ih s hs (Expr.counted_block.1 hcounted s hs)

theorem counted_removeUnitLoops (h : Settled e) (hcounted : e.Counted) :
    e.removeUnitLoops.Counted := by
  rw [Expr.Counted, h.loops_removeUnitLoops hcounted]
  exact fun l hl => hcounted l (List.mem_of_mem_filter hl)

theorem iterations_removeUnitLoops (h : Settled e) (hcounted : e.Counted) (env : Env)
    (mem : Memory V) :
    e.removeUnitLoops.iterations I env mem = (e.iterations I env mem).map Iteration.surviving := by
  induction h generalizing env mem with
  | int | float | bool | var | load | combine | store => rfl
  | @loop v first extent marks body _ hbody _ ih =>
      obtain ⟨_, hbodyCounted⟩ := Expr.counted_loop.1 hcounted
      rw [Expr.removeUnitLoops]
      by_cases hunit : extent.asInt? = some 1
      · have hsettled := hbody.removeUnitLoops.substitute_int v first
        have hgone (a : Iteration) :
            (a.within ⟨⟨v, extent, marks⟩, first⟩).surviving = a.surviving :=
          Iteration.surviving_within_of_isUnit (decide_eq_true hunit) a
        rw [if_pos hunit, hsettled.fold_eq_self,
          Expr.iterations_substitute_int v first (hbody.counted_removeUnitLoops hbodyCounted),
          ih hbodyCounted, Expr.iterations_loop_one v first hunit, List.map_map]
        exact List.map_congr_left fun a _ => (hgone a).symm
      · rw [if_neg hunit, Expr.iterations, Expr.iterations, List.map_flatMap,
          Expr.visited_congr fun w _ m => hbody.exec_removeUnitLoops I _ m]
        refine List.flatMap_congr ?_
        rintro ⟨m, w⟩ _
        have hkept (a : Iteration) : (a.within ⟨⟨v, extent, marks⟩, w⟩).surviving =
            a.surviving.within ⟨⟨v, extent, marks⟩, w⟩ :=
          Iteration.surviving_within (decide_eq_false hunit) a
        simp only [ih hbodyCounted, List.map_map]
        exact List.map_congr_left fun a _ => (hkept a).symm
  | @block ss hss ih =>
      rw [Expr.removeUnitLoops, Expr.removeUnitLoopsAll_eq, Expr.iterations, Expr.iterations,
        Expr.iterationsAll_eq, Expr.iterationsAll_eq, Expr.visited_map, List.flatMap_map,
        List.map_flatMap]
      rw [Expr.visited_congr fun s hs m => (hss s hs).exec_removeUnitLoops I env m]
      refine List.flatMap_congr ?_
      rintro ⟨m, s⟩ hvisited
      have hs := Expr.mem_of_mem_visited hvisited
      exact ih s hs (Expr.counted_block.1 hcounted s hs) env m

theorem loops_simplify (h : Settled e) (hcounted : e.Counted) :
    e.simplify.loops = e.loops.filter fun l => !l.isUnit := by
  rw [Expr.simplify, Expr.loops_flatten, h.loops_removeUnitLoops hcounted]

theorem iterations_simplify (h : Settled e) (hcounted : e.Counted) (env : Env) (mem : Memory V) :
    e.simplify.iterations I env mem = (e.iterations I env mem).map Iteration.surviving := by
  rw [Expr.simplify, Expr.iterations_flatten, h.iterations_removeUnitLoops hcounted]

end Settled

end Reductions
