import Reductions.Proofs.Accesses
import Reductions.Proofs.Settled
import Reductions.Proofs.Simplification

/-!
# Simplification and accesses

A tree with nothing to fold makes the same accesses in the same order after
simplification. Each step of the simplifier has its lemma beside the one that
says it keeps the effect: the accesses of later statements depend on what the
earlier ones did.
-/

namespace Reductions

variable {V : Type} {I : Interpretation V}

/-! ## Flattening -/

namespace Expr

theorem accessesAll_flatMap_statements (ss : List Expr) (env : Env) (mem : Memory V) :
    accessesAll I (ss.flatMap statements) env mem = accessesAll I ss env mem := by
  induction ss generalizing mem with
  | nil => rfl
  | cons s ss ih =>
      rw [List.flatMap_cons, accessesAll_append, accessesAll_statements, execAll_statements, ih,
        accessesAll]

theorem accesses_flatten (e : Expr) (env : Env) (mem : Memory V) :
    e.flatten.accesses I env mem = e.accesses I env mem := by
  induction e using Expr.induct generalizing env mem with
  | int | float | bool | var | handle | binary | load | store => rfl
  | loop v min extent marks body _ _ ih =>
      rw [flatten, accesses, accesses]
      congr 1
      exact logged_congr (fun w _ m => exec_flatten I body _ m) (fun w _ m => ih _ m) mem
  | block ss ih =>
      rw [flatten, accesses, accesses, flattenAll_eq, accessesAll_flatMap_statements,
        accessesAll_eq, accessesAll_eq, logged_map]
      exact logged_congr (fun s _ m => exec_flatten I s env m) (fun s hs m => ih s hs env m) mem

/-! ## Putting a constant for a variable -/

theorem loads_substitute_int (v : String) (n : Int64) (e : Expr) (env : Env) (mem : Memory V) :
    (substitute v (int n) e).loads I env mem = e.loads I (Function.update env v n) mem := by
  have hvalue : (int n).eval I env mem = I.ofWord n := rfl
  induction e using Expr.induct with
  | int | float | bool | handle | store | loop | block => rfl
  | var x =>
      rw [substitute]
      by_cases hx : x = v
      · rw [if_pos hx]
        rfl
      · rw [if_neg hx]
        rfl
  | binary op lhs rhs ihl ihr => rw [substitute, loads, loads, ihl, ihr]
  | load tensor indices ih =>
      rw [substitute, loads, loads, evalIndex_substituteAll hvalue, substituteAll_eq, loadsAll_eq,
        loadsAll_eq, List.flatMap_map, List.flatMap_congr ih]

theorem loadsAll_substituteAll_int (v : String) (n : Int64) (es : List Expr) (env : Env)
    (mem : Memory V) :
    loadsAll I env mem (substituteAll v (int n) es) =
      loadsAll I (Function.update env v n) mem es := by
  rw [substituteAll_eq, loadsAll_eq, loadsAll_eq, List.flatMap_map]
  exact List.flatMap_congr fun e _ => loads_substitute_int v n e env mem

theorem exec_substitute_int (v : String) (n : Int64) (e : Expr) (env : Env) (mem : Memory V) :
    (substitute v (int n) e).exec I env mem = e.exec I (Function.update env v n) mem :=
  exec_substitute rfl (keeps_of_closed v rfl rfl e) rfl

theorem accesses_substitute_int (v : String) (n : Int64) (e : Expr) (env : Env) (mem : Memory V) :
    (substitute v (int n) e).accesses I env mem =
      e.accesses I (Function.update env v n) mem := by
  have hvalue (env : Env) (mem : Memory V) : (int n).eval I env mem = I.ofWord n := rfl
  induction e using Expr.induct generalizing env mem with
  | int | float | bool | handle | binary | load => rfl
  | var x =>
      rw [substitute]
      by_cases hx : x = v
      · rw [if_pos hx]
        rfl
      · rw [if_neg hx]
        rfl
  | store tensor indices value _ _ =>
      rw [substitute, accesses, accesses, loadsAll_substituteAll_int, loads_substitute_int,
        evalIndex_substituteAll (hvalue env mem)]
  | loop x min extent marks body _ _ ih =>
      rw [substitute, accesses, accesses, loads_substitute_int, loads_substitute_int,
        eval_substitute (hvalue env mem), eval_substitute (hvalue env mem)]
      congr 1
      by_cases hx : x = v
      · -- The loop binds `v` itself, so its body sees neither value.
        rw [if_pos hx, hx]
        apply logged_congr
        · intro w _ m
          rw [Function.update_idem]
        · intro w _ m
          rw [Function.update_idem]
      · rw [if_neg hx]
        apply logged_congr
        · intro w _ m
          rw [exec_substitute_int, Function.update_comm (Ne.symm hx)]
        · intro w _ m
          rw [ih, Function.update_comm (Ne.symm hx)]
  | block ss ih =>
      rw [substitute, accesses, accesses, substituteAll_eq, accessesAll_eq, accessesAll_eq,
        logged_map]
      apply logged_congr
      · exact fun s _ m => exec_substitute_int v n s env m
      · exact fun s hs m => ih s hs env m

end Expr

/-! ## Loops that run once -/

namespace Settled

variable {e : Expr}

theorem accesses_removeUnitLoops (h : Settled e) (env : Env) (mem : Memory V) :
    e.removeUnitLoops.accesses I env mem = e.accesses I env mem := by
  induction h generalizing env mem with
  | int | float | bool | var | load | combine | store => rfl
  | @loop v first extent marks body _ hbody _ ih =>
      rw [Expr.removeUnitLoops]
      by_cases hunit : extent.asInt? = some 1
      · have hrest : Settled (Expr.substitute v (.int first) body.removeUnitLoops) :=
          hbody.removeUnitLoops.substitute_int v first
        rw [if_pos hunit, hrest.fold_eq_self, Expr.accesses_substitute_int, ih,
          Expr.accesses_loop_one v first hunit]
      · rw [if_neg hunit, Expr.accesses, Expr.accesses]
        congr 1
        apply Expr.logged_congr
        · exact fun w _ m => hbody.exec_removeUnitLoops I _ m
        · exact fun w _ m => ih _ m
  | @block ss hss ih =>
      rw [Expr.removeUnitLoops, Expr.removeUnitLoopsAll_eq, Expr.accesses, Expr.accesses,
        Expr.accessesAll_eq, Expr.accessesAll_eq, Expr.logged_map]
      apply Expr.logged_congr
      · exact fun s hs m => (hss s hs).exec_removeUnitLoops I env m
      · exact fun s hs m => ih s hs env m

/-- Simplification neither adds, drops nor moves an access. -/
theorem accesses_simplify (h : Settled e) (env : Env) (mem : Memory V) :
    e.simplify.accesses I env mem = e.accesses I env mem := by
  rw [Expr.simplify, Expr.accesses_flatten, h.accesses_removeUnitLoops]

end Settled

end Reductions
