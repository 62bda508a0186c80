import Mathlib.Algebra.Group.Int.Defs
import Mathlib.Algebra.Group.Nat.Defs
import Reductions.Proofs.Projection
import Reductions.Proofs.Regimes

/-!
# Resolved axes

Axes come out of resolution in strictly increasing order: they are sorted, a
repetition is a fault, and each of them is small enough for a machine word. So
every axis below the rank takes a dimension of its own away.
-/

namespace Reductions.ReduceAxes

/-! ## The order of the axes -/

theorem pairwise_lt_of_repeated? {axes : List Int} (hsorted : axes.Pairwise (· ≤ ·))
    (h : repeated? axes = none) : axes.Pairwise (· < ·) := by
  induction axes with
  | nil => exact .nil
  | cons a rest ih =>
      obtain ⟨hle, hrest⟩ := List.pairwise_cons.1 hsorted
      cases rest with
      | nil => exact List.pairwise_singleton _ a
      | cons b rest =>
          rw [repeated?] at h
          by_cases hab : a = b
          · rw [if_pos hab] at h
            cases h
          · rw [if_neg hab] at h
            have htail := ih hrest h
            have hlt : a < b := by
              have hab' := hle b List.mem_cons_self
              omega
            refine List.pairwise_cons.2 ⟨fun c hc => ?_, htail⟩
            rcases List.mem_cons.1 hc with rfl | hmem
            · exact hlt
            · exact Int.lt_trans hlt (List.rel_of_pairwise_cons htail hmem)

theorem listed?_lt {value : AttrValue} {listed : List Int} (h : listed? value = some listed) :
    ∀ axis ∈ listed, axis < 2 ^ 63 := by
  intro axis haxis
  unfold listed? at h
  split at h
  · obtain rfl := Option.some.inj h
    obtain ⟨n, _, rfl⟩ := List.mem_map.1 haxis
    exact n.toInt_lt
  · obtain rfl := Option.some.inj h
    obtain ⟨n, _, rfl⟩ := List.mem_map.1 haxis
    have hn : n.toInt < 2 ^ 31 := n.toInt_lt
    omega
  · obtain rfl := Option.some.inj h
    cases haxis
  · cases h

theorem signedRank_lt (rank : Nat) : signedRank rank < 2 ^ 63 := by
  have hmax : Int64.maxValue.toInt.toNat = 2 ^ 63 - 1 := rfl
  rw [signedRank, hmax]
  omega

theorem normalise_lt (rank : Nat) {listed : List Int} (h : ∀ axis ∈ listed, axis < 2 ^ 63) :
    ∀ axis ∈ normalise rank listed, axis < 2 ^ 63 := by
  have hrank := signedRank_lt rank
  intro axis haxis
  rw [normalise, List.mem_mergeSort] at haxis
  split at haxis
  · obtain ⟨d, hd, rfl⟩ := List.mem_map.1 haxis
    have hlt := List.mem_range.1 hd
    simp only [Int.ofNat_eq_natCast]
    omega
  · obtain ⟨a, ha, rfl⟩ := List.mem_map.1 haxis
    have hlt := h a ha
    rw [fromFront]
    split <;> omega

theorem resolve_pairwise {attrs : AttrStore} {rank : Nat} {bound : AxisBound}
    {resolved : ReduceAxes} (h : resolve attrs rank bound = .ok resolved) :
    (resolved.axes.map UInt64.toNat).Pairwise (· < ·) := by
  rcases resolve_cases attrs rank with ⟨fault, hfault⟩ | ⟨listed, hlisted, hresolve⟩
  · rw [hfault] at h
    cases h
  · rw [hresolve] at h
    obtain ⟨value, _, hvalue⟩ := Option.bind_eq_some_iff.1 hlisted
    by_cases hrange : inRange bound rank (normalise rank listed) = true
    · obtain ⟨_, hpositive, _⟩ := inRange_iff.1 hrange
      have hbounded := normalise_lt rank (listed?_lt hvalue)
      rw [if_pos hrange, settle] at h
      split at h
      · cases h
      · next hnone =>
        have hincreasing := pairwise_lt_of_repeated? (normalise_pairwise rank listed) hnone
        split at h
        · cases h
        · obtain rfl := Except.ok.inj h
          rw [List.map_map, List.pairwise_map]
          refine hincreasing.imp_of_mem fun ha hb hab => ?_
          -- An axis below 2 ^ 63 is the same number as a machine word.
          have hword (c : Int) (hc : c ∈ normalise rank listed) :
              (UInt64.ofNat c.toNat).toNat = c.toNat := by
            have hlt : c.toNat < 2 ^ 64 := by
              have hbound := hbounded c hc
              omega
            exact UInt64.toNat_ofNat_of_lt' hlt
          rw [Function.comp_apply, Function.comp_apply, hword _ ha, hword _ hb]
          have hzero := hpositive _ ha
          omega
    · rw [if_neg hrange] at h
      cases h

/-! ## The dimensions that are left -/

def positions (resolved : ReduceAxes) : List Nat :=
  resolved.axes.map UInt64.toNat

/-- The dimensions in order, those at a reduced position replaced by one or left out. -/
def remaining (resolved : ReduceAxes) (dims : List Dim) : List Dim :=
  if resolved.keepdim then
    dims.mapIdx fun i dim => if i ∈ resolved.positions then .fixed 1 else dim
  else
    (dims.zipIdx.filter fun (_, i) => i ∉ resolved.positions).map Prod.fst

variable {resolved : ReduceAxes}

theorem containsAxis_eq_decide (resolved : ReduceAxes) :
    containsAxis resolved.axes = fun i => decide (i ∈ resolved.positions) := by
  funext i
  rw [Bool.eq_iff_iff, decide_eq_true_eq, containsAxis_eq_true_iff, positions, List.mem_map]

theorem project_eq_remaining (resolved : ReduceAxes) (dims : List Dim) :
    project (containsAxis resolved.axes) resolved.keepdim (.fixed 1) dims =
      resolved.remaining dims := by
  rw [containsAxis_eq_decide, remaining]
  cases resolved.keepdim with
  | true => simp [project_true]
  | false => simp [project_false]

theorem reduced_dims_eq (resolved : ReduceAxes) (s : Shape) :
    (s.reduced resolved.axes resolved.keepdim).dims =
      orUnit (.fixed 1) (resolved.remaining s.dims) := by
  rw [Shape.reduced_dims, collapse, project_eq_remaining]

theorem countP_containsAxis (hnodup : resolved.positions.Nodup) (rank : Nat) :
    (List.range rank).countP (containsAxis resolved.axes) =
      resolved.axes.countP (fun axis => axis.toNat < rank) := by
  have hpositions : resolved.axes.countP (fun axis => axis.toNat < rank) =
      resolved.positions.countP (fun i => i < rank) := by
    rw [positions, List.countP_map]
    rfl
  rw [containsAxis_eq_decide, hpositions, List.countP_eq_length_filter,
    List.countP_eq_length_filter]
  -- Neither list repeats a number, and both have the axes below the rank.
  apply List.Perm.length_eq
  rw [List.perm_ext_iff_of_nodup (List.nodup_range.filter _) (hnodup.filter _)]
  intro i
  rw [List.mem_filter, List.mem_filter, List.mem_range, decide_eq_true_eq, decide_eq_true_eq,
    and_comm]

theorem length_orUnit {α : Type} (unit : α) (xs : List α) :
    (orUnit unit xs).length = max 1 xs.length := by
  cases xs with
  | nil => rfl
  | cons x xs =>
      change xs.length + 1 = max 1 (xs.length + 1)
      omega

theorem length_remaining (hnodup : resolved.positions.Nodup) (dims : List Dim) :
    (resolved.remaining dims).length =
      if resolved.keepdim then dims.length
      else dims.length - resolved.axes.countP (fun axis => axis.toNat < dims.length) := by
  cases hkeep : resolved.keepdim with
  | true => rw [if_pos rfl, remaining, hkeep, if_pos rfl, List.length_mapIdx]
  | false =>
      have hsplit := length_project_false (containsAxis resolved.axes) (.fixed 1) dims
      rw [countP_containsAxis hnodup, ← hkeep, project_eq_remaining] at hsplit
      rw [if_neg Bool.false_ne_true]
      exact Nat.eq_sub_of_add_eq hsplit

theorem rank_reduced {attrs : AttrStore} {rank : Nat} {bound : AxisBound}
    (h : resolve attrs rank bound = .ok resolved) (s : Shape) :
    (s.reduced resolved.axes resolved.keepdim).rank =
      if resolved.keepdim then max 1 s.rank
      else max 1 (s.rank - resolved.axes.countP (fun axis => axis.toNat < s.rank)) := by
  have hnodup : resolved.positions.Nodup := (resolve_pairwise h).imp Nat.ne_of_lt
  rw [Shape.rank, reduced_dims_eq, length_orUnit, length_remaining hnodup, apply_ite (max 1)]
  rfl

end Reductions.ReduceAxes
