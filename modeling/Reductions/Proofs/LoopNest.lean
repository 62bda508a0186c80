import Mathlib.Logic.Function.Basic
import Reductions.Proofs.IndexSpace

/-!
# Running loop nests

A nest over bounded dimensions runs its body once for every place, in the order
of the places. A body that combines into one place of a tensor leaves there the
fold over the iterations that select this place.
-/

namespace Reductions

open Lowering

variable {V : Type} {I : Interpretation V}

/-! ## Loop variables -/

theorem Lowering.loopVar_injective (stem : String) : Function.Injective (loopVar stem) := by
  intro a b h
  have hlist : stem.toList ++ Numeral.ofNat a = stem.toList ++ Numeral.ofNat b := by
    simpa [loopVar] using congrArg String.toList h
  have hdigits : Nat.toDigits 10 a = Nat.toDigits 10 b := List.append_cancel_left hlist
  calc a = Nat.ofDigitChars 10 (Nat.toDigits 10 a) 0 := Nat.ofDigitChars_ten_toDigits.symm
    _ = Nat.ofDigitChars 10 (Nat.toDigits 10 b) 0 := by rw [hdigits]
    _ = b := Nat.ofDigitChars_ten_toDigits

/-- What the variables of a nest stand for at a place, where `k` is the number of the outermost
loop. -/
def nestEnv (stem : String) : Nat → Index → Env → Env
  | _, [], env => env
  | k, w :: i, env => nestEnv stem (k + 1) i (Function.update env (loopVar stem k) w)

theorem nestEnv_loopVar_of_lt (stem : String) {j k : Nat} (h : j < k) (i : Index) (env : Env) :
    nestEnv stem k i env (loopVar stem j) = env (loopVar stem j) := by
  induction i generalizing k env with
  | nil => rfl
  | cons w i ih =>
      have hne : loopVar stem j ≠ loopVar stem k := by
        intro heq
        have hjk := loopVar_injective stem heq
        omega
      rw [nestEnv, ih (by omega), Function.update_of_ne hne]

theorem map_nestEnv (stem : String) (k : Nat) (i : Index) (env : Env) :
    (List.range' k i.length).map (fun j => nestEnv stem k i env (loopVar stem j)) = i := by
  induction i generalizing k env with
  | nil => rfl
  | cons w i ih =>
      rw [List.length_cons, List.range'_succ, List.map_cons, nestEnv,
        nestEnv_loopVar_of_lt stem (Nat.lt_succ_self k), Function.update_self, ih]

theorem evalIndex_loopVars (stem : String) (i : Index) (env : Env) (mem : Memory V) :
    Expr.evalIndex I (nestEnv stem 0 i env) mem (loopVars stem i.length) = i := by
  rw [Expr.evalIndex_eq, loopVars, List.map_map, List.range_eq_range']
  exact map_nestEnv stem 0 i env

/-! ## Nests -/

theorem trips_extent {dim : Dim} (h : dim.Bounded) (env : Env) (mem : Memory V) :
    Expr.trips 0 (dim.extent.eval I env mem).word = dim.words := by
  cases dim with
  | symbol name => exact h.elim
  | fixed size =>
      have hcount : (Int64.ofNat size.toNat).toNatClampNeg = size.toNat :=
        Int64.toNatClampNeg_ofNat_of_lt h
      change Expr.trips 0 (Int64.ofNat size.toNat) = _
      rw [Expr.trips, hcount, Dim.words]
      apply List.map_congr_left
      intro k _
      exact Int64.zero_add _

theorem exec_nestFrom (stem : String) (marks : Nat → LoopMarks) (body : Expr) {dims : List Dim}
    (hdims : ∀ dim ∈ dims, dim.Bounded) (k : Nat) (env : Env) (mem : Memory V) :
    (nestFrom stem marks body k dims).exec I env mem =
      (places dims).foldl (fun m i => body.exec I (nestEnv stem k i env) m) mem := by
  induction dims generalizing k env mem with
  | nil => rfl
  | cons dim dims ih =>
      have hdim : dim.Bounded := hdims dim List.mem_cons_self
      have hrest := ih fun d hd => hdims d (List.mem_cons_of_mem _ hd)
      rw [nestFrom, Expr.exec, places, List.foldl_flatMap]
      change (Expr.trips 0 _).foldl _ mem = _
      rw [trips_extent hdim]
      apply List.foldl_ext
      intro m w _
      rw [Expr.exec, Expr.execAll_singleton, hrest, List.foldl_map]
      rfl

/-! ## Writing through a nest -/

theorem foldl_write (tensor : String) (x : V) (is : List Index) (mem : Memory V) (t : String)
    (o : Index) :
    is.foldl (fun m i => m.write tensor i x) mem t o =
      if t = tensor ∧ o ∈ is then x else mem t o := by
  induction is generalizing mem with
  | nil => simp
  | cons i is ih =>
      rw [List.foldl_cons, ih, Memory.write_apply]
      by_cases ht : t = tensor
      · by_cases hi : o = i
        · simp [ht, hi]
        · simp [ht, hi]
      · simp [ht]

/-- Combining into places of `tensor` the elements of another tensor leaves in each place the fold
over the elements that belong to it. -/
theorem foldl_combine {tensor source : String} (hne : source ≠ tensor) (op : V → V → V)
    (place : Index → Index) (is : List Index) (mem : Memory V) (t : String) (o : Index) :
    is.foldl (fun m i => m.write tensor (place i) (op (m tensor (place i)) (m source i))) mem t o =
      if t = tensor then
        ((is.filter (place · = o)).map (mem source)).foldl op (mem tensor o)
      else mem t o := by
  induction is generalizing mem with
  | nil =>
      by_cases ht : t = tensor
      · simp [ht]
      · simp [ht]
  | cons i is ih =>
      rw [List.foldl_cons, ih, Memory.write_of_ne hne]
      by_cases ht : t = tensor
      · rw [if_pos ht, if_pos ht, Memory.write_apply]
        by_cases hi : place i = o
        · rw [List.filter_cons_of_pos (by simpa using hi), List.map_cons, List.foldl_cons,
            if_pos ⟨rfl, hi.symm⟩, hi]
        · rw [List.filter_cons_of_neg (by simpa using hi), if_neg fun h => hi h.2.symm]
      · rw [if_neg ht, if_neg ht, Memory.write_of_ne ht]

end Reductions
