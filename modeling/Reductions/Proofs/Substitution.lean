import Reductions.Proofs.Occurrences

/-!
# Substitution and execution

Putting an expression in the place of a variable is the same as giving the
variable the value of the expression, as long as the expression still has that
value where the variable is used. It may not: a loop can bind one of its
variables, and a store can change a tensor that it reads. `Keeps` rules out
both.
-/

namespace Reductions.Expr

variable {V : Type} {I : Interpretation V}

/-- Whether the tree has an effect when it stands where a statement does. -/
def isStatement : Expr → Bool
  | store _ _ _ | loop _ _ _ _ _ | block _ => true
  | _ => false

theorem exec_of_not_isStatement {e : Expr} (h : e.isStatement = false) (env : Env)
    (mem : Memory V) : e.exec I env mem = mem := by
  cases e with
  | store | loop | block => simp [isStatement] at h
  | _ => rfl

mutual

/-- The expression `r` keeps its value up to every free occurrence of `v` in the tree: no loop
around one binds a variable of `r`, and no store that may run before one changes a tensor that
`r` reads. -/
def Keeps (v : String) (r : Expr) : Expr → Prop
  | loop x _ _ _ body =>
    x = v ∨ v ∉ body.freeVars ∨
      (x ∉ r.freeVars ∧ (∀ t ∈ r.reads, t ∉ body.writes) ∧ Keeps v r body)
  | block ss => KeepsAll v r ss
  | _ => True

def KeepsAll (v : String) (r : Expr) : List Expr → Prop
  | [] => True
  | s :: ss =>
    Keeps v r s ∧ KeepsAll v r ss ∧ (v ∈ freeVarsAll ss → ∀ t ∈ r.reads, t ∉ s.writes)

end

mutual

def decidableKeeps (v : String) (r : Expr) : (e : Expr) → Decidable (Keeps v r e)
  | loop x _ _ _ body =>
    have := decidableKeeps v r body
    inferInstanceAs (Decidable (x = v ∨ v ∉ body.freeVars ∨
      (x ∉ r.freeVars ∧ (∀ t ∈ r.reads, t ∉ body.writes) ∧ Keeps v r body)))
  | block ss => decidableKeepsAll v r ss
  | int _ | float _ | bool _ | var _ | handle _ | binary _ _ _ | load _ _ | store _ _ _ =>
    isTrue trivial

def decidableKeepsAll (v : String) (r : Expr) : (ss : List Expr) → Decidable (KeepsAll v r ss)
  | [] => isTrue trivial
  | s :: ss =>
    have := decidableKeeps v r s
    have := decidableKeepsAll v r ss
    inferInstanceAs (Decidable (Keeps v r s ∧ KeepsAll v r ss ∧
      (v ∈ freeVarsAll ss → ∀ t ∈ r.reads, t ∉ s.writes)))

end

instance (v : String) (r e : Expr) : Decidable (Keeps v r e) :=
  decidableKeeps v r e

theorem keeps_of_closed (v : String) {r : Expr} (hvars : r.freeVars = []) (hreads : r.reads = [])
    (e : Expr) : Keeps v r e := by
  induction e using Expr.induct with
  | int | float | bool | var | handle | binary | load | store => trivial
  | loop x min extent marks body _ _ ih =>
      rw [Keeps]
      refine .inr (.inr ⟨?_, ?_, ih⟩)
      · simp [hvars]
      · simp [hreads]
  | block ss ih =>
      rw [Keeps]
      induction ss with
      | nil => trivial
      | cons s ss ihss =>
          refine ⟨ih s List.mem_cons_self, ?_, by simp [hreads]⟩
          exact ihss fun x hx => ih x (List.mem_cons_of_mem _ hx)

/-! ## Values -/

theorem eval_substitute {v : String} {r : Expr} {w : Int64} {env : Env} {mem : Memory V}
    (hr : r.eval I env mem = I.ofWord w) (e : Expr) :
    (substitute v r e).eval I env mem = e.eval I (Function.update env v w) mem := by
  induction e using Expr.induct with
  | int | float | bool | handle | store | loop | block => rfl
  | var x =>
      rw [substitute, eval]
      by_cases hx : x = v
      · rw [if_pos hx, hr, hx, Function.update_self]
      · rw [if_neg hx, eval, Function.update_of_ne hx]
  | binary op lhs rhs ihl ihr => rw [substitute, eval, eval, ihl, ihr]
  | load tensor indices ih =>
      have hindex : evalIndex I env mem (substituteAll v r indices) =
          evalIndex I (Function.update env v w) mem indices := by
        rw [substituteAll_eq, evalIndex_eq, evalIndex_eq, List.map_map]
        apply List.map_congr_left
        intro i hi
        rw [Function.comp_apply, ih i hi]
      rw [substitute, eval, eval, hindex]

theorem evalIndex_substituteAll {v : String} {r : Expr} {w : Int64} {env : Env} {mem : Memory V}
    (hr : r.eval I env mem = I.ofWord w) (es : List Expr) :
    evalIndex I env mem (substituteAll v r es) =
      evalIndex I (Function.update env v w) mem es := by
  rw [substituteAll_eq, evalIndex_eq, evalIndex_eq, List.map_map]
  apply List.map_congr_left
  intro e _
  rw [Function.comp_apply, eval_substitute hr]

/-! ## Effects -/

section Effects

variable {v : String} {r : Expr} {w : Int64} {env : Env} {mem : Memory V}

/-- The step that carries the value of `r` past statements that leave its tensors alone. -/
theorem eval_after {mem' : Memory V} (hr : r.eval I env mem = I.ofWord w)
    (hmem : ∀ t ∈ r.reads, mem' t = mem t) : r.eval I env mem' = I.ofWord w := by
  rw [← hr]
  exact eval_congr r (fun _ _ => rfl) hmem

/-- The iterations of a loop that binds another variable. The invariant is that the memories agree
with the first one on what `r` reads. -/
theorem foldl_exec_substitute {x : String} {body : Expr} (hx : x ≠ v) (hbinds : x ∉ r.freeVars)
    (hwrites : ∀ t ∈ r.reads, t ∉ body.writes)
    (hbody : ∀ {env : Env} {mem : Memory V}, r.eval I env mem = I.ofWord w →
      (substitute v r body).exec I env mem = body.exec I (Function.update env v w) mem)
    (hr : r.eval I env mem = I.ofWord w) (words : List Int64) :
    words.foldl (fun m k => (substitute v r body).exec I (Function.update env x k) m) mem =
      words.foldl
        (fun m k => body.exec I (Function.update (Function.update env v w) x k) m) mem := by
  refine foldl_congr_of_invariant (fun m => ∀ t ∈ r.reads, m t = mem t) ?_ fun _ _ => rfl
  intro k _ m hm
  have hvalue : r.eval I (Function.update env x k) m = I.ofWord w := by
    rw [← eval_after hr hm]
    apply eval_congr r _ fun _ _ => rfl
    intro y hy
    have hyx : y ≠ x := fun heq => hbinds (heq ▸ hy)
    exact Function.update_of_ne hyx _ _
  constructor
  · rw [hbody hvalue, Function.update_comm hx.symm]
  · intro t ht
    rw [exec_apply_of_not_mem_writes body _ _ (hwrites t ht), hm t ht]

theorem execAll_substituteAll {ss : List Expr}
    (hss : ∀ s ∈ ss, ∀ {mem : Memory V}, Keeps v r s → r.eval I env mem = I.ofWord w →
      (substitute v r s).exec I env mem = s.exec I (Function.update env v w) mem)
    (hkeeps : KeepsAll v r ss) (hr : r.eval I env mem = I.ofWord w) :
    execAll I (substituteAll v r ss) env mem = execAll I ss (Function.update env v w) mem := by
  induction ss generalizing mem with
  | nil => rfl
  | cons s ss ih =>
      obtain ⟨hhead, htail, hbetween⟩ := hkeeps
      rw [substituteAll, execAll, execAll, hss s List.mem_cons_self hhead hr]
      by_cases hfree : v ∈ freeVarsAll ss
      · apply ih (fun x hx => hss x (List.mem_cons_of_mem _ hx)) htail
        apply eval_after hr
        intro t ht
        exact exec_apply_of_not_mem_writes s _ _ (hbetween hfree t ht)
      · -- Nothing after `s` mentions `v`, so `r` may have any value there.
        have hsame : substituteAll v r ss = ss :=
          substituteAll_eq_self fun x hx =>
            substitute_of_not_mem_freeVars r fun hv => hfree (mem_freeVarsAll.2 ⟨x, hx, hv⟩)
        rw [hsame]
        exact (exec_update_of_not_mem_freeVars (e := block ss) hfree w env _).symm

/-- Running the tree with `r` put for `v` is running it with the value of `r` for `v`. -/
theorem exec_substitute (hvalue : r.isStatement = false) {e : Expr} (hkeeps : Keeps v r e)
    (hr : r.eval I env mem = I.ofWord w) :
    (substitute v r e).exec I env mem = e.exec I (Function.update env v w) mem := by
  induction e using Expr.induct generalizing env mem with
  | int | float | bool | handle | binary | load => rfl
  | var x =>
      rw [substitute]
      by_cases hx : x = v
      · rw [if_pos hx]
        exact exec_of_not_isStatement hvalue env mem
      · rw [if_neg hx]
        rfl
  | store tensor indices value _ _ =>
      rw [substitute, exec, exec, evalIndex_substituteAll hr, eval_substitute hr]
  | loop x min extent marks body _ _ ih =>
      rw [substitute, exec, exec, eval_substitute hr, eval_substitute hr]
      by_cases hx : x = v
      · -- The loop binds `v` itself, so its body sees neither `r` nor the new value.
        rw [if_pos hx]
        apply List.foldl_ext
        intro m k _
        rw [hx, Function.update_idem]
      rw [if_neg hx]
      by_cases hfree : v ∈ body.freeVars
      · rw [Keeps] at hkeeps
        obtain ⟨hbinds, hwrites, hinner⟩ :=
          (hkeeps.resolve_left hx).resolve_left (not_not_intro hfree)
        exact foldl_exec_substitute hx hbinds hwrites (fun h => ih hinner h) hr _
      · rw [substitute_of_not_mem_freeVars r hfree]
        apply List.foldl_ext
        intro m k _
        rw [Function.update_comm (Ne.symm hx), exec_update_of_not_mem_freeVars hfree]
  | block ss ih =>
      rw [Keeps] at hkeeps
      rw [substitute, exec, exec]
      exact execAll_substituteAll (fun s hs _ hkept hm => ih s hs hkept hm) hkeeps hr

end Effects

end Reductions.Expr
