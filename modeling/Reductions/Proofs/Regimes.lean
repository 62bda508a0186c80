import Mathlib.Data.List.Pairwise
import Reductions.Strategy.Reduce

/-!
# Static and symbolic strategies

The two regimes build the same compute function and differ in two points only: a
symbolic strategy has no schedule, and it bounds the axes strictly. The second
point shows on one kind of input, where the greatest axis is the rank.
-/

@[simp] theorem Except.mapError_ok {α ε ε' : Type} (f : ε → ε') (a : α) :
    (Except.ok a).mapError f = .ok a := rfl

@[simp] theorem Except.mapError_error {α ε ε' : Type} (f : ε → ε') (e : ε) :
    (Except.error e : Except ε α).mapError f = .error (f e) := rfl

namespace Reductions

/-! ## Bounds -/

theorem AxisBound.allows_of_exclusive {axis rank : Nat} (bound : AxisBound)
    (h : exclusive.allows axis rank = true) : bound.allows axis rank = true := by
  have hlt : axis < rank := of_decide_eq_true h
  cases bound with
  | inclusive => exact decide_eq_true (Nat.le_of_lt hlt)
  | exclusive => exact h

namespace ReduceAxes

variable {attrs : AttrStore} {rank : Nat} {bound : AxisBound} {axes : List Int}

theorem inRange_iff : inRange bound rank axes = true ↔
    axes.length ≤ rank ∧ (∀ axis ∈ axes, 0 ≤ axis) ∧
      ∀ last, axes.getLast? = some last → bound.allows last.toNat rank = true := by
  unfold inRange
  cases hlast : axes.getLast? with
  | none => simp
  | some last => simp [and_assoc]

theorem inRange_of_exclusive (bound : AxisBound) (h : inRange .exclusive rank axes = true) :
    inRange bound rank axes = true := by
  rw [inRange_iff] at h ⊢
  obtain ⟨hlength, hpositive, hlast⟩ := h
  exact ⟨hlength, hpositive, fun last heq => bound.allows_of_exclusive (hlast last heq)⟩

theorem getLast?_of_inRange (h : inRange bound rank axes = true)
    (hexclusive : inRange .exclusive rank axes = false) :
    bound = .inclusive ∧ axes.getLast? = some (rank : Int) := by
  cases bound with
  | exclusive =>
      rw [hexclusive] at h
      cases h
  | inclusive =>
      refine ⟨rfl, ?_⟩
      obtain ⟨hlength, hpositive, hlast⟩ := inRange_iff.1 h
      by_contra hne
      -- Otherwise the last axis is below the rank, and the strict bound holds as well.
      have hstrict : inRange .exclusive rank axes = true := by
        refine inRange_iff.2 ⟨hlength, hpositive, fun last heq => ?_⟩
        have hle : last.toNat ≤ rank := of_decide_eq_true (hlast last heq)
        have hzero : 0 ≤ last := hpositive last (List.mem_of_getLast? heq)
        have hrank : last ≠ rank := fun h => hne (h ▸ heq)
        exact decide_eq_true (by omega)
      rw [hexclusive] at hstrict
      cases hstrict

theorem normalise_pairwise (rank : Nat) (listed : List Int) :
    (normalise rank listed).Pairwise (· ≤ ·) := by
  have htrans : ∀ a b c : Int, decide (a ≤ b) = true → decide (b ≤ c) = true →
      decide (a ≤ c) = true := by
    intro a b c hab hbc
    exact decide_eq_true (Int.le_trans (of_decide_eq_true hab) (of_decide_eq_true hbc))
  have htotal : ∀ a b : Int, (decide (a ≤ b) || decide (b ≤ a)) = true := by
    intro a b
    rw [Bool.or_eq_true, decide_eq_true_eq, decide_eq_true_eq]
    exact Int.le_total a b
  exact (List.pairwise_mergeSort htrans htotal _).imp of_decide_eq_true

theorem eq_of_perm_of_sorted {axes' : List Int} (h : axes.Perm axes')
    (hsorted : axes.Pairwise (· ≤ ·)) (hsorted' : axes'.Pairwise (· ≤ ·)) : axes = axes' :=
  h.eq_of_pairwise (fun _ _ _ _ => Int.le_antisymm) hsorted hsorted'

theorem normalise_eq {listed : List Int} (hlisted : listed ≠ [])
    (hperm : (listed.map (fromFront rank)).Perm axes) (hsorted : axes.Pairwise (· ≤ ·)) :
    normalise rank listed = axes := by
  have hsome : listed.isEmpty = false := List.isEmpty_eq_false_iff.2 hlisted
  refine eq_of_perm_of_sorted ?_ (normalise_pairwise rank listed) hsorted
  rw [normalise, hsome]
  exact (List.mergeSort_perm _ _).trans hperm

theorem le_of_getLast? (hsorted : axes.Pairwise (· ≤ ·)) {last : Int}
    (hlast : axes.getLast? = some last) : last ∈ axes ∧ ∀ axis ∈ axes, axis ≤ last := by
  refine ⟨List.mem_of_getLast? hlast, fun axis haxis => ?_⟩
  have hne : axes ≠ [] := List.ne_nil_of_mem haxis
  have heq : axes.getLast hne = last :=
    Option.some.inj ((List.getLast?_eq_some_getLast hne).symm.trans hlast)
  rw [← heq]
  exact hsorted.rel_getLast haxis

/-- What is left to check once the axes are in range. -/
def settle (attrs : AttrStore) (axes : List Int) : Except StrategyFault ReduceAxes :=
  match repeated? axes with
  | some axis => .error (.duplicateAxis axis.toNat)
  | none =>
    match keepdim? attrs with
    | .error fault => .error fault
    | .ok keep => .ok ⟨axes.map fun axis => UInt64.ofNat axis.toNat, keep⟩

theorem resolve_of_listed {listed : List Int}
    (h : (attrs.get? axisAttr).bind listed? = some listed) (rank : Nat) (bound : AxisBound) :
    resolve attrs rank bound =
      if inRange bound rank (normalise rank listed) then settle attrs (normalise rank listed)
      else .error (.axisOutOfRange (normalise rank listed) rank) := by
  obtain ⟨value, hvalue, hlisted⟩ := Option.bind_eq_some_iff.1 h
  simp only [resolve, hvalue, hlisted]
  rfl

/-- Any sorted permutation of the listed axes stands for what sorting them gives. -/
theorem resolve_of_perm {listed : List Int}
    (h : (attrs.get? axisAttr).bind listed? = some listed) (hlisted : listed ≠ [])
    (hperm : (listed.map (fromFront rank)).Perm axes) (hsorted : axes.Pairwise (· ≤ ·))
    (bound : AxisBound) :
    resolve attrs rank bound =
      if inRange bound rank axes then settle attrs axes else .error (.axisOutOfRange axes rank) := by
  rw [resolve_of_listed h, normalise_eq hlisted hperm hsorted]

/-- Everything that resolving does: the attribute is bad whatever the bound is, or the bound decides
between an axis out of range and an outcome that it has no part in. -/
theorem resolve_cases (attrs : AttrStore) (rank : Nat) :
    (∃ fault, ∀ bound, resolve attrs rank bound = .error fault) ∨
      ∃ listed, (attrs.get? axisAttr).bind listed? = some listed ∧
        ∀ bound, resolve attrs rank bound =
          if inRange bound rank (normalise rank listed) then settle attrs (normalise rank listed)
          else .error (.axisOutOfRange (normalise rank listed) rank) := by
  cases hvalue : attrs.get? axisAttr with
  | none =>
      refine .inl ⟨.missingAttribute axisAttr, fun bound => ?_⟩
      simp only [resolve, hvalue]
  | some value =>
      cases hlisted : listed? value with
      | none =>
          refine .inl ⟨.invalidAttributeType axisAttr value.typeName, fun bound => ?_⟩
          simp only [resolve, hvalue, hlisted]
      | some listed => exact .inr ⟨listed, hlisted, resolve_of_listed (hvalue ▸ hlisted) rank⟩

theorem resolve_of_exclusive {resolved : ReduceAxes}
    (h : resolve attrs rank .exclusive = .ok resolved) (bound : AxisBound) :
    resolve attrs rank bound = .ok resolved := by
  rcases resolve_cases attrs rank with ⟨fault, hfault⟩ | ⟨listed, _, hresolve⟩
  · rw [hfault] at h
    cases h
  · rw [hresolve] at h ⊢
    by_cases hrange : inRange .exclusive rank (normalise rank listed) = true
    · rw [if_pos hrange] at h
      rw [if_pos (inRange_of_exclusive bound hrange), h]
    · rw [if_neg hrange] at h
      cases h

theorem eq_inclusive_of_resolve {resolved : ReduceAxes} {fault : StrategyFault}
    (hok : resolve attrs rank bound = .ok resolved)
    (herror : resolve attrs rank .exclusive = .error fault) :
    bound = .inclusive ∧ ∃ listed, (attrs.get? axisAttr).bind listed? = some listed ∧
      fault = .axisOutOfRange (normalise rank listed) rank ∧
      (rank : Int) ∈ normalise rank listed ∧ ∀ axis ∈ normalise rank listed, axis ≤ rank := by
  rcases resolve_cases attrs rank with ⟨fault', hfault⟩ | ⟨listed, hlisted, hresolve⟩
  · rw [hfault] at hok
    cases hok
  · rw [hresolve] at hok herror
    have hexclusive : inRange .exclusive rank (normalise rank listed) = false := by
      rw [Bool.eq_false_iff]
      intro hrange
      rw [if_pos hrange] at herror
      rw [if_pos (inRange_of_exclusive bound hrange), herror] at hok
      cases hok
    have hbound : inRange bound rank (normalise rank listed) = true := by
      by_contra hrange
      rw [if_neg hrange] at hok
      cases hok
    obtain ⟨hinclusive, hlast⟩ := getLast?_of_inRange hbound hexclusive
    rw [hexclusive] at herror
    have hfault : .axisOutOfRange (normalise rank listed) rank = fault := Except.error.inj herror
    exact ⟨hinclusive, listed, hlisted, hfault.symm,
      le_of_getLast? (normalise_pairwise rank listed) hlast⟩

end ReduceAxes

/-! ## Building a strategy -/

namespace ReductionOperator

variable {op : ReductionOperator} {regime : ShapeRegime} {options : StrategyOptions}
  {call : OperatorCall}

theorem build_eq_ok_iff {s : Strategy} : op.build regime options call = .ok s ↔
    ∃ input rest resolved, call.inputs = input :: rest ∧
      ReduceAxes.resolve call.attrs input.rank (regime.axisBound options) = .ok resolved ∧
      s = ⟨[op.implementation regime options call.target.arch resolved]⟩ := by
  unfold build resolveAxes
  cases call.inputs with
  | nil => simp
  | cons input rest =>
      cases hresolve : ReduceAxes.resolve call.attrs input.rank (regime.axisBound options) with
      | error fault => simp [hresolve, Except.map]
      | ok resolved =>
          simp [hresolve, Except.map, Strategy.add, Strategy.empty, eq_comm]

theorem build_eq_error_iff {e : StrategyError} : op.build regime options call = .error e ↔
    call.inputs = [] ∧ e = .fault op.name .missingInput ∨
      ∃ input rest fault, call.inputs = input :: rest ∧
        ReduceAxes.resolve call.attrs input.rank (regime.axisBound options) = .error fault ∧
        e = .fault op.name fault := by
  unfold build resolveAxes
  cases call.inputs with
  | nil => simp [eq_comm]
  | cons input rest =>
      cases hresolve : ReduceAxes.resolve call.attrs input.rank (regime.axisBound options) with
      | error fault => simp [hresolve, Except.map, eq_comm]
      | ok resolved => simp [hresolve, Except.map]

theorem build_static_of_symbolic {s : Strategy} (h : op.build .symbolic options call = .ok s)
    (bound : AxisBound) :
    ∃ t, op.build .static { options with staticAxisBound := bound } call = .ok t ∧
      ∃ i j : Implementation, s.implementations = [i] ∧ t.implementations = [j] ∧
        i.name = j.name ∧ i.priority = j.priority ∧ (∀ args, i.compute args = j.compute args) ∧
        i.schedule = none ∧ j.hasSchedule = true := by
  obtain ⟨input, rest, resolved, hinputs, hresolve, rfl⟩ := build_eq_ok_iff.1 h
  have hstatic : ReduceAxes.resolve call.attrs input.rank bound = .ok resolved :=
    ReduceAxes.resolve_of_exclusive hresolve bound
  have hbuild : op.build .static { options with staticAxisBound := bound } call =
      .ok ⟨[op.implementation .static { options with staticAxisBound := bound } call.target.arch
        resolved]⟩ :=
    build_eq_ok_iff.2 ⟨input, rest, resolved, hinputs, hstatic, rfl⟩
  exact ⟨_, hbuild, _, _, rfl, rfl, rfl, rfl, fun _ => rfl, rfl, rfl⟩

theorem build_symbolic_error {t : Strategy} {e : StrategyError}
    (hstatic : op.build .static options call = .ok t)
    (hsymbolic : op.build .symbolic options call = .error e) :
    options.staticAxisBound = .inclusive ∧ ∃ input rest listed,
      call.inputs = input :: rest ∧
      (call.attrs.get? axisAttr).bind ReduceAxes.listed? = some listed ∧
      e = .fault op.name
        (.axisOutOfRange (ReduceAxes.normalise input.rank listed) input.rank) ∧
      (input.rank : Int) ∈ ReduceAxes.normalise input.rank listed ∧
      ∀ axis ∈ ReduceAxes.normalise input.rank listed, axis ≤ input.rank := by
  obtain ⟨input, rest, resolved, hinputs, hok, _⟩ := build_eq_ok_iff.1 hstatic
  rcases build_eq_error_iff.1 hsymbolic with ⟨hnone, _⟩ | ⟨input', rest', fault, hinputs', herror, he⟩
  · rw [hnone] at hinputs
    cases hinputs
  · obtain ⟨rfl, rfl⟩ := List.cons.inj (hinputs.symm.trans hinputs')
    obtain ⟨hbound, listed, hlisted, rfl, hmem, hle⟩ :=
      ReduceAxes.eq_inclusive_of_resolve hok herror
    exact ⟨hbound, input, rest, listed, hinputs, hlisted, he, hmem, hle⟩

theorem build_error_iff_of_exclusive (h : options.staticAxisBound = .exclusive)
    (e : StrategyError) :
    op.build .static options call = .error e ↔ op.build .symbolic options call = .error e := by
  have hbound : ShapeRegime.static.axisBound options = ShapeRegime.symbolic.axisBound options := h
  rw [build_eq_error_iff, build_eq_error_iff, hbound]

/-- A symbolic strategy comes with a static one, whatever the static bound is: the two have one
implementation each, with the same name, priority and results, and only the static one has a
schedule. A static strategy comes with a symbolic one unless the static bound is inclusive and the
greatest axis is the rank of the first input, which is then what the symbolic error reports. With
the exclusive bound both regimes fail alike. What the caller expects of the results counts for
nothing. -/
theorem build_regimes (op : ReductionOperator) (options : StrategyOptions) (call : OperatorCall) :
    (∀ s, op.build .symbolic options call = .ok s → ∀ bound,
      ∃ t, op.build .static { options with staticAxisBound := bound } call = .ok t ∧
        ∃ i j : Implementation, s.implementations = [i] ∧ t.implementations = [j] ∧
          i.name = j.name ∧ i.priority = j.priority ∧
          (∀ args, i.compute args = j.compute args) ∧
          i.schedule = none ∧ j.hasSchedule = true) ∧
    (∀ t e, op.build .static options call = .ok t → op.build .symbolic options call = .error e →
      options.staticAxisBound = .inclusive ∧ ∃ input rest listed,
        call.inputs = input :: rest ∧
        (call.attrs.get? axisAttr).bind ReduceAxes.listed? = some listed ∧
        e = .fault op.name
          (.axisOutOfRange (ReduceAxes.normalise input.rank listed) input.rank) ∧
        (input.rank : Int) ∈ ReduceAxes.normalise input.rank listed ∧
        ∀ axis ∈ ReduceAxes.normalise input.rank listed, axis ≤ input.rank) ∧
    (options.staticAxisBound = .exclusive → ∀ e,
      op.build .static options call = .error e ↔ op.build .symbolic options call = .error e) ∧
    ∀ regime elements shapes,
      op.build regime options { call with resultElements := elements, resultShapes := shapes } =
        op.build regime options call := by
  refine ⟨fun s hs bound => build_static_of_symbolic hs bound, ?_, ?_, fun _ _ _ => rfl⟩
  · exact fun t e hstatic hsymbolic => build_symbolic_error hstatic hsymbolic
  · exact fun hexclusive e => build_error_iff_of_exclusive hexclusive e

def matrixCall (axes : List Int64) : OperatorCall where
  attrs := AttrStore.ofList [(axisAttr, .int64s axes)]
  inputs := [.input ⟨"x", ⟨[.fixed 4, .fixed 8]⟩, .float32⟩]
  resultElements := []
  resultShapes := []
  target := .host

theorem resolve_matrixCall (bound : AxisBound) :
    ReduceAxes.resolve (matrixCall [-1]).attrs 2 bound = .ok ⟨[1], false⟩ := by
  have hlisted : ((matrixCall [-1]).attrs.get? axisAttr).bind ReduceAxes.listed? = some [-1] := rfl
  have hperm : ([-1].map (ReduceAxes.fromFront 2)).Perm [1] := .refl [1]
  rw [ReduceAxes.resolve_of_perm hlisted (by decide) hperm (by decide)]
  cases bound <;> rfl

/-- The last axis from the end is fine in both regimes; an axis at the rank is in one only. -/
theorem build_regimes_matrix :
    (∃ s t i j, reduceSum.build .symbolic {} (matrixCall [-1]) = .ok s ∧
      reduceSum.build .static {} (matrixCall [-1]) = .ok t ∧
      s.implementations = [i] ∧ t.implementations = [j] ∧
      (∀ args, i.compute args = j.compute args) ∧ i.schedule = none ∧ j.hasSchedule = true) ∧
    ∃ t e, reduceSum.build .static {} (matrixCall [2, -2]) = .ok t ∧
      reduceSum.build .symbolic {} (matrixCall [2, -2]) = .error e ∧
      e = .fault "reduce_sum" (.axisOutOfRange [0, 2] 2) ∧
      ({} : StrategyOptions).staticAxisBound = .inclusive := by
  constructor
  · obtain ⟨hsame, _, _, _⟩ := build_regimes reduceSum {} (matrixCall [-1])
    have hsymbolic : ∃ s, reduceSum.build .symbolic {} (matrixCall [-1]) = .ok s :=
      ⟨_, build_eq_ok_iff.2 ⟨_, _, _, rfl, resolve_matrixCall .exclusive, rfl⟩⟩
    obtain ⟨s, hs⟩ := hsymbolic
    obtain ⟨t, ht, i, j, hi, hj, _, _, hcompute, hnone, hsome⟩ := hsame s hs .inclusive
    exact ⟨s, t, i, j, hs, ht, hi, hj, hcompute, hnone, hsome⟩
  · obtain ⟨_, hboundary, _, _⟩ := build_regimes reduceSum {} (matrixCall [2, -2])
    have hlisted : ((matrixCall [2, -2]).attrs.get? axisAttr).bind ReduceAxes.listed? =
        some [2, -2] := rfl
    have hperm : ([2, -2].map (ReduceAxes.fromFront 2)).Perm [0, 2] := .swap 0 2 []
    have hinclusive : ReduceAxes.resolve (matrixCall [2, -2]).attrs 2 .inclusive =
        .ok ⟨[0, 2], false⟩ :=
      ReduceAxes.resolve_of_perm hlisted (by decide) hperm (by decide) .inclusive
    have hexclusive : ReduceAxes.resolve (matrixCall [2, -2]).attrs 2 .exclusive =
        .error (.axisOutOfRange [0, 2] 2) :=
      ReduceAxes.resolve_of_perm hlisted (by decide) hperm (by decide) .exclusive
    have hstatic : ∃ t, reduceSum.build .static {} (matrixCall [2, -2]) = .ok t :=
      ⟨_, build_eq_ok_iff.2 ⟨_, _, _, rfl, hinclusive, rfl⟩⟩
    obtain ⟨t, ht⟩ := hstatic
    have hsymbolic : reduceSum.build .symbolic {} (matrixCall [2, -2]) =
        .error (.fault "reduce_sum" (.axisOutOfRange [0, 2] 2)) :=
      build_eq_error_iff.2 (.inr ⟨_, _, _, rfl, hexclusive, rfl⟩)
    exact ⟨t, _, ht, hsymbolic, rfl, (hboundary t _ ht hsymbolic).1⟩

end ReductionOperator

end Reductions
