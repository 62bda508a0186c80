import Reductions.Expr.Fold
import Reductions.Expr.UnitLoops
import Reductions.Proofs.Substitution

/-!
# Trees with nothing to fold

In the trees that lowering gives, loops start at an integer constant and
operations combine two loaded elements. Folding finds nothing to do in such a
tree, before and after a lower bound is put for a loop variable, so removing
loops that run once keeps the meaning of the tree over every domain: no law of
the operations is used.
-/

namespace Reductions

/-- Loops start at an integer constant, and the operands of operations are loaded. -/
inductive Settled : Expr → Prop where
  | int (n : Int64) : Settled (.int n)
  | float (x : Binary64) : Settled (.float x)
  | bool (b : Bool) : Settled (.bool b)
  | var (v : String) : Settled (.var v)
  | load {tensor : String} {indices : List Expr} : (∀ i ∈ indices, Settled i) →
      Settled (.load tensor indices)
  | combine {op : BinaryOp} {t t' : String} {indices indices' : List Expr} :
      (∀ i ∈ indices, Settled i) → (∀ i ∈ indices', Settled i) →
      Settled (.binary op (.load t indices) (.load t' indices'))
  | store {tensor : String} {indices : List Expr} {value : Expr} :
      (∀ i ∈ indices, Settled i) → Settled value → Settled (.store tensor indices value)
  | loop {v : String} {first : Int64} {extent : Expr} {marks : LoopMarks} {body : Expr} :
      Settled extent → Settled body → Settled (.loop v (.int first) extent marks body)
  | block {ss : List Expr} : (∀ s ∈ ss, Settled s) → Settled (.block ss)

namespace Settled

variable {e : Expr}

theorem foldAll_eq_self {es : List Expr} (h : ∀ e ∈ es, e.fold = e) : Expr.foldAll es = es := by
  rw [Expr.foldAll_eq, List.map_congr_left h]
  exact List.map_id' es

theorem foldBinary_load (op : BinaryOp) (t t' : String) (indices indices' : List Expr) :
    Expr.foldBinary op (.load t indices) (.load t' indices') =
      .binary op (.load t indices) (.load t' indices') := by
  unfold Expr.foldBinary Expr.dropIdle
  cases op <;> simp [Expr.asInt?]

theorem fold_eq_self (h : Settled e) : e.fold = e := by
  induction h with
  | int | float | bool | var => rfl
  | load _ ih => rw [Expr.fold, foldAll_eq_self ih]
  | combine _ _ ih ih' =>
      rw [Expr.fold, Expr.fold, Expr.fold, foldAll_eq_self ih, foldAll_eq_self ih',
        foldBinary_load]
  | store _ _ ihi ihv => rw [Expr.fold, foldAll_eq_self ihi, ihv]
  | loop _ _ ihe ihb =>
      rw [Expr.fold, ihe, ihb]
      rfl
  | block _ ih => rw [Expr.fold, foldAll_eq_self ih]

theorem forall_mem_map {f : Expr → Expr} {es : List Expr} (h : ∀ e ∈ es, Settled (f e)) :
    ∀ e ∈ es.map f, Settled e := by
  intro e he
  obtain ⟨e', he', rfl⟩ := List.mem_map.1 he
  exact h e' he'

theorem substitute_int (h : Settled e) (v : String) (n : Int64) :
    Settled (Expr.substitute v (.int n) e) := by
  induction h with
  | int k => exact .int k
  | float x => exact .float x
  | bool b => exact .bool b
  | var x =>
      rw [Expr.substitute]
      by_cases hx : x = v
      · rw [if_pos hx]
        exact .int n
      · rw [if_neg hx]
        exact .var x
  | load _ ih =>
      rw [Expr.substitute, Expr.substituteAll_eq]
      exact .load (forall_mem_map ih)
  | combine _ _ ih ih' =>
      rw [Expr.substitute, Expr.substitute, Expr.substitute, Expr.substituteAll_eq,
        Expr.substituteAll_eq]
      exact .combine (forall_mem_map ih) (forall_mem_map ih')
  | store _ _ ihi ihv =>
      rw [Expr.substitute, Expr.substituteAll_eq]
      exact .store (forall_mem_map ihi) ihv
  | @loop x first extent marks body _ hbody ihe ihb =>
      rw [Expr.substitute]
      apply Settled.loop ihe
      by_cases hx : x = v
      · rw [if_pos hx]
        exact hbody
      · rw [if_neg hx]
        exact ihb
  | block _ ih =>
      rw [Expr.substitute, Expr.substituteAll_eq]
      exact .block (forall_mem_map ih)

/-! ## Loops that run once -/

theorem removeUnitLoops (h : Settled e) : Settled e.removeUnitLoops := by
  induction h with
  | int n => exact .int n
  | float x => exact .float x
  | bool b => exact .bool b
  | var v => exact .var v
  | load h _ => exact .load h
  | combine h h' _ _ => exact .combine h h'
  | store h h' _ _ => exact .store h h'
  | @loop v first extent marks body hextent _ _ ih =>
      rw [Expr.removeUnitLoops]
      by_cases hunit : extent.asInt? = some 1
      · have hbody := ih.substitute_int v first
        rw [if_pos hunit, hbody.fold_eq_self]
        exact hbody
      · rw [if_neg hunit]
        exact .loop hextent ih
  | block _ ih =>
      rw [Expr.removeUnitLoops, Expr.removeUnitLoopsAll_eq]
      exact .block (forall_mem_map ih)

/-- Without its loops that run once the tree does what it did, over every domain. -/
theorem exec_removeUnitLoops {V : Type} (I : Interpretation V) (h : Settled e) (env : Env)
    (mem : Memory V) : e.removeUnitLoops.exec I env mem = e.exec I env mem := by
  induction h generalizing env mem with
  | int | float | bool | var | load | combine | store => rfl
  | @loop v first extent marks body _ hbody _ ih =>
      rw [Expr.removeUnitLoops]
      by_cases hunit : extent.asInt? = some 1
      · have hrest : Settled (Expr.substitute v (.int first) body.removeUnitLoops) :=
          hbody.removeUnitLoops.substitute_int v first
        have hkeeps : Expr.Keeps v (.int first) body.removeUnitLoops :=
          Expr.keeps_of_closed v rfl rfl _
        have hvalue : (Expr.int first).eval I env mem = I.ofWord first := rfl
        rw [if_pos hunit]
        calc (Expr.substitute v (.int first) body.removeUnitLoops).fold.exec I env mem
            = (Expr.substitute v (.int first) body.removeUnitLoops).exec I env mem := by
              rw [hrest.fold_eq_self]
          _ = body.removeUnitLoops.exec I (Function.update env v first) mem :=
              Expr.exec_substitute rfl hkeeps hvalue
          _ = body.exec I (Function.update env v first) mem := ih _ mem
          _ = (Expr.loop v (.int first) extent marks body).exec I env mem :=
              (Expr.exec_loop_one v (.int first) hunit marks body env mem).symm
      · rw [if_neg hunit, Expr.exec, Expr.exec]
        apply List.foldl_ext
        intro m w _
        exact ih _ m
  | block _ ih =>
      rw [Expr.removeUnitLoops, Expr.removeUnitLoopsAll_eq, Expr.exec, Expr.exec,
        Expr.execAll_eq, Expr.execAll_eq, List.foldl_map]
      apply List.foldl_ext
      intro m s hs
      exact ih s hs env m

end Settled

end Reductions
