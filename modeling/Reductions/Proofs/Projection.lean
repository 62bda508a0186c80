import Mathlib.Data.List.Basic
import Reductions.Reduction.Lowering

/-!
# What a reduction keeps of a list

The dimensions of a result, the index expressions that select one of its
elements and the index itself are all made in the same way from a list with one
entry for each dimension of the source: entries of reduced dimensions become a
unit or go away. `project` is that function, and `collapse` makes up an entry
where none is left.
-/

namespace Reductions

variable {α β : Type}

/-- The list without the entries of reduced dimensions, or with `unit` in their place. -/
def project (reduced : Nat → Bool) (keepdim : Bool) (unit : α) : List α → List α
  | [] => []
  | x :: xs =>
    (if reduced 0 then if keepdim then [unit] else [] else [x]) ++
      project (fun d => reduced (d + 1)) keepdim unit xs

/-- The list, or `unit` alone in the place of an empty one. -/
def orUnit (unit : α) : List α → List α
  | [] => [unit]
  | xs => xs

/-- What is left of one entry for each dimension after the axes are reduced. -/
def collapse (axes : List UInt64) (keepdim : Bool) (unit : α) (xs : List α) : List α :=
  orUnit unit (project (containsAxis axes) keepdim unit xs)

theorem map_orUnit (f : α → β) (unit : α) (xs : List α) :
    (orUnit unit xs).map f = orUnit (f unit) (xs.map f) := by
  cases xs <;> rfl

theorem map_project (f : α → β) (reduced : Nat → Bool) (keepdim : Bool) (unit : α)
    (xs : List α) :
    (project reduced keepdim unit xs).map f = project reduced keepdim (f unit) (xs.map f) := by
  induction xs generalizing reduced with
  | nil => rfl
  | cons x xs ih =>
      rw [project, List.map_append, ih, List.map_cons, project]
      congr 1
      by_cases hreduced : reduced 0
      · rw [if_pos hreduced, if_pos hreduced]
        cases keepdim <;> rfl
      · rw [if_neg hreduced, if_neg hreduced]
        rfl

theorem map_collapse (f : α → β) (axes : List UInt64) (keepdim : Bool) (unit : α)
    (xs : List α) :
    (collapse axes keepdim unit xs).map f = collapse axes keepdim (f unit) (xs.map f) := by
  rw [collapse, map_orUnit, map_project, collapse]

theorem mem_project {reduced : Nat → Bool} {keepdim : Bool} {unit a : α} {xs : List α}
    (h : a ∈ project reduced keepdim unit xs) : a = unit ∨ a ∈ xs := by
  induction xs generalizing reduced with
  | nil => exact .inr h
  | cons x xs ih =>
      rw [project, List.mem_append] at h
      rcases h with hhead | htail
      · by_cases hreduced : reduced 0
        · cases keepdim with
          | true => exact .inl (by simpa [hreduced] using hhead)
          | false => simp [hreduced] at hhead
        · have hax : a = x := by simpa [hreduced] using hhead
          exact .inr (hax ▸ List.mem_cons_self)
      · exact (ih htail).imp_right (List.mem_cons_of_mem _)

theorem mem_collapse {axes : List UInt64} {keepdim : Bool} {unit a : α} {xs : List α}
    (h : a ∈ collapse axes keepdim unit xs) : a = unit ∨ a ∈ xs := by
  rw [collapse] at h
  cases hlist : project (containsAxis axes) keepdim unit xs with
  | nil =>
      rw [hlist] at h
      exact .inl (List.mem_singleton.1 h)
  | cons y ys =>
      rw [hlist] at h
      apply mem_project
      rw [hlist]
      exact h

theorem length_project_congr (reduced : Nat → Bool) (keepdim : Bool) (unit : α) (unit' : β)
    {xs : List α} {ys : List β} (h : xs.length = ys.length) :
    (project reduced keepdim unit xs).length = (project reduced keepdim unit' ys).length := by
  have hxs := congrArg List.length (map_project (fun _ => ()) reduced keepdim unit xs)
  have hys := congrArg List.length (map_project (fun _ => ()) reduced keepdim unit' ys)
  rw [List.length_map] at hxs hys
  have hsame : xs.map (fun _ => ()) = ys.map (fun _ => ()) := by
    rw [List.map_const', List.map_const', h]
  rw [hxs, hys, hsame]

theorem project_add_eq_filterMap (reduced : Nat → Bool) (keepdim : Bool) (unit : α)
    (xs : List α) (n : Nat) :
    project (fun d => reduced (n + d)) keepdim unit xs =
      (xs.zipIdx n).filterMap fun (x, i) =>
        if reduced i then if keepdim then some unit else none else some x := by
  induction xs generalizing n with
  | nil => rfl
  | cons x xs ih =>
      have hshift : (fun d => reduced (n + (d + 1))) = fun d => reduced (n + 1 + d) := by
        funext d
        rw [Nat.add_right_comm, Nat.add_assoc]
      rw [project, hshift, ih (n + 1), List.zipIdx_cons, List.filterMap_cons, Nat.add_zero]
      by_cases hreduced : reduced n
      · cases keepdim <;> simp [hreduced]
      · simp [hreduced]

theorem project_eq_filterMap (reduced : Nat → Bool) (keepdim : Bool) (unit : α) (xs : List α) :
    project reduced keepdim unit xs =
      xs.zipIdx.filterMap fun (x, i) =>
        if reduced i then if keepdim then some unit else none else some x := by
  have hzero : (fun d => reduced (0 + d)) = reduced := by
    funext d
    rw [Nat.zero_add]
  rw [← project_add_eq_filterMap, hzero]

theorem project_true (reduced : Nat → Bool) (unit : α) (xs : List α) :
    project reduced true unit xs = xs.mapIdx fun i x => if reduced i then unit else x := by
  induction xs generalizing reduced with
  | nil => rfl
  | cons x xs ih =>
      rw [project, ih, List.mapIdx_cons]
      cases reduced 0 <;> rfl

theorem project_false (reduced : Nat → Bool) (unit : α) (xs : List α) :
    project reduced false unit xs = (xs.zipIdx.filter fun (_, i) => !reduced i).map Prod.fst := by
  rw [project_eq_filterMap, ← List.filterMap_eq_map, List.filterMap_filter]
  congr 1
  funext ⟨x, i⟩
  cases hreduced : reduced i <;> simp [hreduced]

theorem length_project_false (reduced : Nat → Bool) (unit : α) (xs : List α) :
    (project reduced false unit xs).length + (List.range xs.length).countP reduced =
      xs.length := by
  have hindices : xs.zipIdx.map Prod.snd = List.range xs.length := by
    rw [List.zipIdx_map_snd, List.range_eq_range']
  have hleft : (project reduced false unit xs).length =
      (List.range xs.length).countP (fun i => !reduced i) := by
    rw [project_false, List.length_map, ← List.countP_eq_length_filter, ← hindices,
      List.countP_map]
    rfl
  have hsplit := List.length_eq_countP_add_countP reduced (l := List.range xs.length)
  rw [List.length_range] at hsplit
  simp only [Bool.not_eq_true, Bool.decide_eq_false] at hsplit
  omega

/-! ## The three lists of a reduction -/

theorem Shape.reduced_dims (s : Shape) (axes : List UInt64) (keepdim : Bool) :
    (s.reduced axes keepdim).dims = collapse axes keepdim (.fixed 1) s.dims := by
  have hdims : s.reducedDims axes keepdim =
      project (containsAxis axes) keepdim (.fixed 1) s.dims := by
    rw [project_eq_filterMap]
    rfl
  rw [collapse, ← hdims, Shape.reduced]
  cases s.reducedDims axes keepdim <;> rfl

theorem Lowering.resultIndices_eq (axes : List UInt64) (keepdim : Bool) (rank : Nat) :
    resultIndices axes keepdim rank =
      collapse axes keepdim (.int 0) (loopVars sourceStem rank) := by
  rw [collapse, project_eq_filterMap]
  unfold resultIndices resultIndex?
  generalize List.filterMap _ _ = indices
  cases indices <;> rfl

theorem Lowering.mem_resultIndices {axes : List UInt64} {keepdim : Bool} {rank : Nat} {e : Expr}
    (h : e ∈ resultIndices axes keepdim rank) : e = .int 0 ∨ e ∈ loopVars sourceStem rank := by
  rw [resultIndices_eq] at h
  exact mem_collapse h

end Reductions
