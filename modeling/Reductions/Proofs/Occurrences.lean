import Mathlib.Data.List.Basic
import Reductions.Expr.Substitute
import Reductions.Proofs.Execution

/-!
# What a tree mentions

The variables that a tree takes from its surroundings, the tensors that it
reads and the tensors that it stores to. What a tree does depends on the first
two only, and changes the last only. Its floating-point constants are listed
here as well.
-/

namespace Reductions.Expr

mutual

/-- The variables with a free occurrence. The variable of a loop is bound in its body only. -/
def freeVars : Expr → List String
  | var v => [v]
  | binary _ lhs rhs => lhs.freeVars ++ rhs.freeVars
  | load _ indices => freeVarsAll indices
  | store _ indices value => freeVarsAll indices ++ value.freeVars
  | loop v min extent _ body =>
    min.freeVars ++ extent.freeVars ++ body.freeVars.filter (· != v)
  | block ss => freeVarsAll ss
  | int _ | float _ | bool _ | handle _ => []

def freeVarsAll : List Expr → List String
  | [] => []
  | e :: es => e.freeVars ++ freeVarsAll es

end

mutual

def reads : Expr → List String
  | binary _ lhs rhs => lhs.reads ++ rhs.reads
  | load tensor indices => tensor :: readsAll indices
  | store _ indices value => readsAll indices ++ value.reads
  | loop _ min extent _ body => min.reads ++ extent.reads ++ body.reads
  | block ss => readsAll ss
  | int _ | float _ | bool _ | var _ | handle _ => []

def readsAll : List Expr → List String
  | [] => []
  | e :: es => e.reads ++ readsAll es

end

mutual

def writes : Expr → List String
  | store tensor _ _ => [tensor]
  | loop _ _ _ _ body => body.writes
  | block ss => writesAll ss
  | _ => []

def writesAll : List Expr → List String
  | [] => []
  | s :: ss => s.writes ++ writesAll ss

end

mutual

def floats : Expr → List Binary64
  | float x => [x]
  | binary _ lhs rhs => lhs.floats ++ rhs.floats
  | load _ indices => floatsAll indices
  | store _ indices value => floatsAll indices ++ value.floats
  | loop _ min extent _ body => min.floats ++ extent.floats ++ body.floats
  | block ss => floatsAll ss
  | int _ | bool _ | var _ | handle _ => []

def floatsAll : List Expr → List Binary64
  | [] => []
  | e :: es => e.floats ++ floatsAll es

end

theorem mem_freeVarsAll {x : String} {es : List Expr} :
    x ∈ freeVarsAll es ↔ ∃ e ∈ es, x ∈ e.freeVars := by
  induction es with
  | nil => simp [freeVarsAll]
  | cons e es ih => simp [freeVarsAll, ih]

theorem mem_readsAll {t : String} {es : List Expr} :
    t ∈ readsAll es ↔ ∃ e ∈ es, t ∈ e.reads := by
  induction es with
  | nil => simp [readsAll]
  | cons e es ih => simp [readsAll, ih]

theorem mem_writesAll {t : String} {ss : List Expr} :
    t ∈ writesAll ss ↔ ∃ s ∈ ss, t ∈ s.writes := by
  induction ss with
  | nil => simp [writesAll]
  | cons s ss ih => simp [writesAll, ih]

theorem floatsAll_eq (es : List Expr) : floatsAll es = es.flatMap floats := by
  induction es with
  | nil => rfl
  | cons e es ih => rw [floatsAll, ih, List.flatMap_cons]

variable {V : Type} {I : Interpretation V}

/-! ## What a value depends on -/

theorem eval_congr (e : Expr) {env env' : Env} {mem mem' : Memory V}
    (henv : ∀ x ∈ e.freeVars, env x = env' x) (hmem : ∀ t ∈ e.reads, mem t = mem' t) :
    e.eval I env mem = e.eval I env' mem' := by
  induction e using Expr.induct with
  | int | float | bool | handle | store | loop | block => rfl
  | var v => rw [eval, eval, henv v (by simp [freeVars])]
  | binary op lhs rhs ihl ihr =>
      simp only [freeVars, reads, List.mem_append] at henv hmem
      rw [eval, eval, ihl (fun x hx => henv x (.inl hx)) (fun t ht => hmem t (.inl ht)),
        ihr (fun x hx => henv x (.inr hx)) (fun t ht => hmem t (.inr ht))]
  | load tensor indices ih =>
      have hindex : evalIndex I env mem indices = evalIndex I env' mem' indices := by
        rw [evalIndex_eq, evalIndex_eq]
        apply List.map_congr_left
        intro i hi
        rw [ih i hi
          (fun x hx => henv x (by rw [freeVars]; exact mem_freeVarsAll.2 ⟨i, hi, hx⟩))
          (fun t ht => hmem t (by
            rw [reads]; exact List.mem_cons_of_mem _ (mem_readsAll.2 ⟨i, hi, ht⟩)))]
      rw [eval, eval, hindex, hmem tensor (by simp [reads])]

theorem evalIndex_congr {es : List Expr} {env env' : Env} {mem : Memory V}
    (henv : ∀ x ∈ freeVarsAll es, env x = env' x) :
    evalIndex I env mem es = evalIndex I env' mem es := by
  rw [evalIndex_eq, evalIndex_eq]
  apply List.map_congr_left
  intro e he
  rw [eval_congr e (fun x hx => henv x (mem_freeVarsAll.2 ⟨e, he, hx⟩)) fun _ _ => rfl]

/-! ## What a run depends on and changes -/

theorem exec_congr (e : Expr) {env env' : Env} (mem : Memory V)
    (henv : ∀ x ∈ e.freeVars, env x = env' x) : e.exec I env mem = e.exec I env' mem := by
  induction e using Expr.induct generalizing env env' mem with
  | int | float | bool | var | handle | binary | load => rfl
  | store tensor indices value _ _ =>
      simp only [freeVars, List.mem_append] at henv
      rw [exec, exec, evalIndex_congr fun x hx => henv x (.inl hx),
        eval_congr value (fun x hx => henv x (.inr hx)) fun _ _ => rfl]
  | loop v min extent marks body _ _ ih =>
      simp only [freeVars, List.mem_append, List.mem_filter, bne_iff_ne, ne_eq] at henv
      have hmin : min.eval I env mem = min.eval I env' mem :=
        eval_congr min (fun x hx => henv x (.inl (.inl hx))) fun _ _ => rfl
      have hextent : extent.eval I env mem = extent.eval I env' mem :=
        eval_congr extent (fun x hx => henv x (.inl (.inr hx))) fun _ _ => rfl
      rw [exec, exec, hmin, hextent]
      apply List.foldl_ext
      intro m w _
      apply ih
      intro x hx
      by_cases h : x = v
      · rw [h, Function.update_self, Function.update_self]
      · rw [Function.update_of_ne h, Function.update_of_ne h]
        exact henv x (.inr ⟨hx, h⟩)
  | block ss ih =>
      simp only [freeVars] at henv
      rw [exec, exec, execAll_eq, execAll_eq]
      apply List.foldl_ext
      intro m s hs
      exact ih s hs m fun x hx => henv x (mem_freeVarsAll.2 ⟨s, hs, hx⟩)

theorem exec_update_of_not_mem_freeVars {v : String} {e : Expr} (h : v ∉ e.freeVars) (w : Int64)
    (env : Env) (mem : Memory V) :
    e.exec I (Function.update env v w) mem = e.exec I env mem := by
  apply exec_congr
  intro x hx
  have hne : x ≠ v := fun heq => h (heq ▸ hx)
  exact Function.update_of_ne hne _ _

theorem exec_apply_of_not_mem_writes (e : Expr) (env : Env) (mem : Memory V) {t : String}
    (h : t ∉ e.writes) : e.exec I env mem t = mem t := by
  induction e using Expr.induct generalizing env mem with
  | int | float | bool | var | handle | binary | load => rfl
  | store tensor indices value _ _ =>
      rw [exec]
      exact Memory.write_of_ne (by simpa [writes] using h) _ _
  | loop v min extent marks body _ _ ih =>
      rw [exec]
      refine List.foldlRecOn _ _ (motive := fun m : Memory V => m t = mem t) rfl ?_
      intro m hm w _
      rw [ih _ m h, hm]
  | block ss ih =>
      rw [exec, execAll_eq]
      refine List.foldlRecOn _ _ (motive := fun m : Memory V => m t = mem t) rfl ?_
      intro m hm s hs
      rw [ih s hs env m fun ht => h (mem_writesAll.2 ⟨s, hs, ht⟩), hm]

/-! ## Substituting for a variable that does not occur -/

theorem substituteAll_eq_self {v : String} {r : Expr} {es : List Expr}
    (h : ∀ e ∈ es, substitute v r e = e) : substituteAll v r es = es := by
  rw [substituteAll_eq, List.map_congr_left h]
  exact List.map_id' es

theorem substitute_of_not_mem_freeVars {v : String} (r : Expr) {e : Expr} (h : v ∉ e.freeVars) :
    substitute v r e = e := by
  induction e using Expr.induct with
  | int | float | bool | handle => rfl
  | var x =>
      have hx : x ≠ v := fun eq => h (by simp [freeVars, eq])
      rw [substitute, if_neg hx]
  | binary op lhs rhs ihl ihr =>
      simp only [freeVars, List.mem_append, not_or] at h
      rw [substitute, ihl h.1, ihr h.2]
  | load tensor indices ih =>
      rw [freeVars] at h
      rw [substitute, substituteAll_eq_self fun i hi =>
        ih i hi fun hv => h (mem_freeVarsAll.2 ⟨i, hi, hv⟩)]
  | store tensor indices value ihi ihv =>
      simp only [freeVars, List.mem_append, not_or] at h
      rw [substitute, ihv h.2, substituteAll_eq_self fun i hi =>
        ihi i hi fun hv => h.1 (mem_freeVarsAll.2 ⟨i, hi, hv⟩)]
  | loop x min extent marks body ihm ihe ihb =>
      simp only [freeVars, List.mem_append, List.mem_filter, bne_iff_ne, ne_eq, not_or,
        not_and, not_not] at h
      rw [substitute, ihm h.1.1, ihe h.1.2]
      by_cases hx : x = v
      · rw [if_pos hx]
      · rw [if_neg hx, ihb fun hv => hx (h.2 hv).symm]
  | block ss ih =>
      rw [freeVars] at h
      rw [substitute, substituteAll_eq_self fun s hs =>
        ih s hs fun hv => h (mem_freeVarsAll.2 ⟨s, hs, hv⟩)]

end Reductions.Expr
