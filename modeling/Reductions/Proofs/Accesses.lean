import Reductions.Proofs.Execution

/-!
# Accesses of a run

The elements that a run reads and writes, in order. `Expr.accesses` follows
`Expr.exec` case by case and sees the same memories, so an index or a loop bound
that is loaded has in both the value that earlier stores gave it.

A list of accesses stands for a run as far as stores go: an element that is not
stored to keeps its value (`exec_apply_of_not_stored`).
-/

namespace Reductions

inductive Access where
  | load (tensor : String) (place : Index)
  | store (tensor : String) (place : Index)
deriving DecidableEq, Repr

namespace Expr

variable {V : Type}

mutual

/-- The loads that give an expression its value, operands and indices first. -/
def loads (I : Interpretation V) (env : Env) (mem : Memory V) : Expr → List Access
  | binary _ lhs rhs => lhs.loads I env mem ++ rhs.loads I env mem
  | load tensor indices =>
    loadsAll I env mem indices ++ [.load tensor (evalIndex I env mem indices)]
  | int _ | float _ | bool _ | var _ | handle _ | store _ _ _ | loop _ _ _ _ _ | block _ => []

def loadsAll (I : Interpretation V) (env : Env) (mem : Memory V) : List Expr → List Access
  | [] => []
  | e :: es => e.loads I env mem ++ loadsAll I env mem es

end

/-- What steps log that run one after another, each on the memory that the ones before left. -/
def logged {α : Type} (run : Memory V → α → Memory V) (log : Memory V → α → List Access) :
    List α → Memory V → List Access
  | [], _ => []
  | x :: xs, mem => log mem x ++ logged run log xs (run mem x)

mutual

def accesses (I : Interpretation V) : Expr → Env → Memory V → List Access
  | store tensor indices value, env, mem =>
    loadsAll I env mem indices ++ value.loads I env mem ++
      [.store tensor (evalIndex I env mem indices)]
  | loop v min extent _ body, env, mem =>
    min.loads I env mem ++ extent.loads I env mem ++
      logged (fun m w => body.exec I (Function.update env v w) m)
        (fun m w => body.accesses I (Function.update env v w) m)
        (trips (min.eval I env mem).word (extent.eval I env mem).word) mem
  | block ss, env, mem => accessesAll I ss env mem
  | int _, _, _ | float _, _, _ | bool _, _, _ | var _, _, _ | handle _, _, _
  | binary _ _ _, _, _ | load _ _, _, _ => []

def accessesAll (I : Interpretation V) : List Expr → Env → Memory V → List Access
  | [], _, _ => []
  | s :: ss, env, mem => s.accesses I env mem ++ accessesAll I ss env (s.exec I env mem)

end

variable {I : Interpretation V} {env : Env} {mem : Memory V}

/-! ## Lists of parts -/

theorem loadsAll_eq (es : List Expr) :
    loadsAll I env mem es = es.flatMap (loads I env mem) := by
  induction es with
  | nil => rfl
  | cons e es ih => rw [loadsAll, ih, List.flatMap_cons]

theorem accessesAll_eq (ss : List Expr) (env : Env) (mem : Memory V) :
    accessesAll I ss env mem =
      logged (fun m s => s.exec I env m) (fun m s => s.accesses I env m) ss mem := by
  induction ss generalizing mem with
  | nil => rfl
  | cons s ss ih => rw [accessesAll, ih, logged]

theorem accessesAll_singleton (s : Expr) (env : Env) (mem : Memory V) :
    accessesAll I [s] env mem = s.accesses I env mem := by
  rw [accessesAll, accessesAll, List.append_nil]

theorem accessesAll_append (ss ts : List Expr) (env : Env) (mem : Memory V) :
    accessesAll I (ss ++ ts) env mem =
      accessesAll I ss env mem ++ accessesAll I ts env (execAll I ss env mem) := by
  induction ss generalizing mem with
  | nil => rfl
  | cons s ss ih =>
      rw [List.cons_append, accessesAll, accessesAll, execAll, ih, List.append_assoc]

theorem accessesAll_statements (e : Expr) (env : Env) (mem : Memory V) :
    accessesAll I e.statements env mem = e.accesses I env mem := by
  cases e with
  | block ss => rfl
  | _ => exact accessesAll_singleton _ env mem

/-! ## Steps one after another -/

section Logged

variable {α β : Type} {run run' : Memory V → α → Memory V} {log log' : Memory V → α → List Access}

theorem logged_congr {xs : List α} (hrun : ∀ x ∈ xs, ∀ m, run m x = run' m x)
    (hlog : ∀ x ∈ xs, ∀ m, log m x = log' m x) (mem : Memory V) :
    logged run log xs mem = logged run' log' xs mem := by
  induction xs generalizing mem with
  | nil => rfl
  | cons x xs ih =>
      have hhead : x ∈ x :: xs := List.mem_cons_self
      rw [logged, logged, hlog x hhead, hrun x hhead]
      congr 1
      apply ih
      · exact fun y hy => hrun y (List.mem_cons_of_mem _ hy)
      · exact fun y hy => hlog y (List.mem_cons_of_mem _ hy)

theorem logged_map (f : β → α) (xs : List β) (mem : Memory V) :
    logged run log (xs.map f) mem = logged (fun m x => run m (f x)) (fun m x => log m (f x)) xs mem := by
  induction xs generalizing mem with
  | nil => rfl
  | cons x xs ih => rw [List.map_cons, logged, logged, ih]

theorem logged_eq_flatMap {f : α → List Access} {xs : List α}
    (h : ∀ x ∈ xs, ∀ m, log m x = f x) (mem : Memory V) :
    logged run log xs mem = xs.flatMap f := by
  induction xs generalizing mem with
  | nil => rfl
  | cons x xs ih =>
      rw [logged, h x List.mem_cons_self, List.flatMap_cons,
        ih fun y hy => h y (List.mem_cons_of_mem _ hy)]

/-- The step from one iteration to a whole loop: an element that no step stores to is kept. -/
theorem foldl_apply_of_not_logged {t : String} {o : Index} {xs : List α}
    (hstep : ∀ x ∈ xs, ∀ m, .store t o ∉ log m x → run m x t o = m t o)
    (h : .store t o ∉ logged run log xs mem) : xs.foldl run mem t o = mem t o := by
  induction xs generalizing mem with
  | nil => rfl
  | cons x xs ih =>
      rw [logged, List.mem_append, not_or] at h
      rw [List.foldl_cons, ih (fun y hy => hstep y (List.mem_cons_of_mem _ hy)) h.2,
        hstep x List.mem_cons_self mem h.1]

end Logged

/-! ## What the accesses say about a run -/

theorem exec_apply_of_not_stored (e : Expr) (env : Env) (mem : Memory V) {t : String} {o : Index}
    (h : .store t o ∉ e.accesses I env mem) : e.exec I env mem t o = mem t o := by
  induction e using Expr.induct generalizing env mem with
  | int | float | bool | var | handle | binary | load => rfl
  | store tensor indices value _ _ =>
      have hplace : ¬ (t = tensor ∧ o = evalIndex I env mem indices) := by
        rintro ⟨rfl, rfl⟩
        apply h
        rw [accesses]
        exact List.mem_append_right _ (List.mem_singleton_self _)
      rw [exec, Memory.write_apply, if_neg hplace]
  | loop v min extent marks body _ _ ih =>
      rw [accesses, List.mem_append, not_or] at h
      rw [exec]
      exact foldl_apply_of_not_logged (fun w _ m => ih _ m) h.2
  | block ss ih =>
      rw [accesses, accessesAll_eq] at h
      rw [exec, execAll_eq]
      exact foldl_apply_of_not_logged (fun s hs m => ih s hs env m) h

/-- A loop that runs once makes the accesses of its body, if its bounds load nothing. -/
theorem accesses_loop_one (v : String) (first : Int64) {extent : Expr}
    (hunit : extent.asInt? = some 1) (marks : LoopMarks) (body : Expr) (env : Env)
    (mem : Memory V) :
    (loop v (int first) extent marks body).accesses I env mem =
      body.accesses I (Function.update env v first) mem := by
  have hbounds : (loop v (int first) (int 1) marks body).accesses I env mem =
      logged (fun m w => body.exec I (Function.update env v w) m)
        (fun m w => body.accesses I (Function.update env v w) m) (trips first 1) mem := by
    rw [accesses, loads, loads, List.nil_append]
    rfl
  rw [eq_int_of_asInt? hunit, hbounds, trips_one, logged, logged, List.append_nil]

end Expr

end Reductions
