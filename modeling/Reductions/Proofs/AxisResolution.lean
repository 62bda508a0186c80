import Mathlib.Data.List.Duplicate
import Reductions.Proofs.ResolvedAxes

/-!
# The outcome of axis resolution

The axis attribute lists numbers of dimensions. Those that are asked for are the
listed ones counted from the front and sorted, or all dimensions if the list is
empty. `Outcome` says what resolution makes of them, without the sorting and
scanning that it uses, and it is met by exactly one result.
-/

namespace Reductions.ReduceAxes

/-! ## The axes that are asked for -/

/-- The axes as the attribute lists them; an empty list stands for all dimensions. -/
inductive Lists : AttrValue → List Int → Prop
  | int64s (values : List Int64) : Lists (.int64s values) (values.map Int64.toInt)
  | int32s (values : List Int32) : Lists (.int32s values) (values.map Int32.toInt)
  | all : Lists (.bool true) []

def counted (rank : Nat) (listed : List Int) : List Int :=
  if listed = [] then (List.range rank).map Int.ofNat
  else listed.map fun axis => if axis < 0 then axis + rank else axis

def Asked (attrs : AttrStore) (rank : Nat) (axes : List Int) : Prop :=
  ∃ value listed, attrs.get? axisAttr = some value ∧ Lists value listed ∧
    axes.Perm (counted rank listed) ∧ axes.Pairwise (· ≤ ·)

variable {attrs : AttrStore} {rank : Nat} {bound : AxisBound} {axes listed : List Int}

theorem lists_iff {value : AttrValue} : Lists value listed ↔ listed? value = some listed := by
  constructor
  · intro h
    cases h <;> rfl
  · intro h
    unfold listed? at h
    split at h
    · obtain rfl := Option.some.inj h
      exact .int64s _
    · obtain rfl := Option.some.inj h
      exact .int32s _
    · obtain rfl := Option.some.inj h
      exact .all
    · cases h

theorem signedRank_eq (hrank : (rank : Int) ≤ Int64.maxValue.toInt) : signedRank rank = rank := by
  rw [signedRank]
  omega

theorem normalise_perm (hrank : (rank : Int) ≤ Int64.maxValue.toInt) (listed : List Int) :
    (normalise rank listed).Perm (counted rank listed) := by
  refine (List.mergeSort_perm _ _).trans (.of_eq ?_)
  cases listed with
  | nil => simp [counted, signedRank_eq hrank]
  | cons axis rest => simp [counted, fromFront, signedRank_eq hrank]

theorem asked_normalise (hrank : (rank : Int) ≤ Int64.maxValue.toInt) {value : AttrValue}
    (hvalue : attrs.get? axisAttr = some value) (hlists : Lists value listed) :
    Asked attrs rank (normalise rank listed) :=
  ⟨value, listed, hvalue, hlists, normalise_perm hrank listed, normalise_pairwise rank listed⟩

theorem listed_fits {value : AttrValue} (h : Lists value listed) :
    ∀ axis ∈ listed, -2 ^ 63 ≤ axis ∧ axis < 2 ^ 63 := by
  intro axis haxis
  cases h with
  | int64s values =>
      obtain ⟨word, _, rfl⟩ := List.mem_map.1 haxis
      exact ⟨word.le_toInt, word.toInt_lt⟩
  | int32s values =>
      obtain ⟨word, _, rfl⟩ := List.mem_map.1 haxis
      have hle := word.le_toInt
      have hlt := word.toInt_lt
      omega
  | all => cases haxis

theorem asked_fits (hrank : (rank : Int) ≤ Int64.maxValue.toInt) (h : Asked attrs rank axes) :
    ∀ axis ∈ axes, -2 ^ 63 ≤ axis ∧ axis < 2 ^ 63 := by
  have hmax : Int64.maxValue.toInt = 2 ^ 63 - 1 := rfl
  obtain ⟨value, listed, _, hlists, hperm, _⟩ := h
  intro axis haxis
  rw [hperm.mem_iff, counted] at haxis
  split at haxis
  · obtain ⟨d, hd, rfl⟩ := List.mem_map.1 haxis
    have hlt := List.mem_range.1 hd
    simp only [Int.ofNat_eq_natCast]
    omega
  · obtain ⟨a, ha, rfl⟩ := List.mem_map.1 haxis
    have hfits := listed_fits hlists a ha
    split <;> omega

/-! ## The checks -/

def Beyond (bound : AxisBound) (rank : Nat) (axis : Int) : Prop :=
  match bound with
  | .inclusive => rank < axis
  | .exclusive => rank ≤ axis

/-- There are more axes than dimensions, or one of them is negative or past the bound. -/
def OutOfRange (bound : AxisBound) (rank : Nat) (axes : List Int) : Prop :=
  rank < axes.length ∨ ∃ axis ∈ axes, axis < 0 ∨ Beyond bound rank axis

theorem allows_eq_true_iff {axis : Int} (h : 0 ≤ axis) :
    bound.allows axis.toNat rank = true ↔ ¬ Beyond bound rank axis := by
  cases bound with
  | inclusive =>
      rw [AxisBound.allows, decide_eq_true_eq, Beyond]
      omega
  | exclusive =>
      rw [AxisBound.allows, decide_eq_true_eq, Beyond]
      omega

theorem Beyond.mono {axis other : Int} (h : Beyond bound rank axis) (hle : axis ≤ other) :
    Beyond bound rank other := by
  cases bound with
  | inclusive => exact Int.lt_of_lt_of_le h hle
  | exclusive => exact Int.le_trans h hle

theorem inRange_iff_not_outOfRange (hsorted : axes.Pairwise (· ≤ ·)) :
    inRange bound rank axes = true ↔ ¬ OutOfRange bound rank axes := by
  rw [inRange_iff]
  constructor
  · rintro ⟨hlength, hpositive, hlast⟩ (hmany | ⟨axis, haxis, hnegative | hbeyond⟩)
    · omega
    · have hzero := hpositive axis haxis
      omega
    · have hlast? := List.getLast?_eq_some_getLast (List.ne_nil_of_mem haxis)
      obtain ⟨hmem, hmax⟩ := le_of_getLast? hsorted hlast?
      exact (allows_eq_true_iff (hpositive _ hmem)).1 (hlast _ hlast?)
        (hbeyond.mono (hmax axis haxis))
  · intro h
    rw [OutOfRange, not_or, not_exists] at h
    obtain ⟨hlength, hinside⟩ := h
    have hpositive : ∀ axis ∈ axes, 0 ≤ axis := by
      intro axis haxis
      by_contra hnegative
      exact hinside axis ⟨haxis, .inl (Int.not_le.1 hnegative)⟩
    refine ⟨Nat.not_lt.1 hlength, hpositive, fun last hlast => ?_⟩
    have hmem := List.mem_of_getLast? hlast
    exact (allows_eq_true_iff (hpositive last hmem)).2 fun h => hinside last ⟨hmem, .inr h⟩

theorem duplicate_of_repeated? (hsorted : axes.Pairwise (· ≤ ·)) {axis : Int}
    (h : repeated? axes = some axis) :
    axes.Duplicate axis ∧ ∀ other, axes.Duplicate other → axis ≤ other := by
  induction axes with
  | nil => cases h
  | cons a rest ih =>
      obtain ⟨hle, hrest⟩ := List.pairwise_cons.1 hsorted
      cases rest with
      | nil => cases h
      | cons b rest =>
          rw [repeated?] at h
          split at h
          · next hab =>
              obtain rfl := Option.some.inj h
              refine ⟨List.Mem.duplicate_cons_self (hab ▸ List.mem_cons_self), ?_⟩
              intro other hother
              rcases List.mem_cons.1 hother.mem with rfl | hmem
              · exact Int.le_refl _
              · exact hle other hmem
          · next hab =>
              obtain ⟨hduplicate, hleast⟩ := ih hrest h
              refine ⟨hduplicate.duplicate_cons a, fun other hother => ?_⟩
              -- `a` itself is below `b`, so it does not come again.
              rcases List.duplicate_cons_iff.1 hother with ⟨rfl, hmem⟩ | hlater
              · have hab' := hle b List.mem_cons_self
                have hba : b ≤ a := by
                  rcases List.mem_cons.1 hmem with rfl | htail
                  · exact Int.le_refl _
                  · exact List.rel_of_pairwise_cons hrest htail
                exact absurd (Int.le_antisymm hab' hba) hab
              · exact hleast other hlater

theorem repeated?_eq_none (hsorted : axes.Pairwise (· ≤ ·)) (hnodup : axes.Nodup) :
    repeated? axes = none := by
  rw [Option.eq_none_iff_forall_ne_some]
  intro axis h
  exact (duplicate_of_repeated? hsorted h).1.not_nodup hnodup

theorem keepdim?_eq_ok_iff {keep : Bool} :
    keepdim? attrs = .ok keep ↔ (attrs.get? keepdimAttr).getD (.bool false) = .bool keep := by
  unfold keepdim?
  cases hvalue : attrs.get? keepdimAttr with
  | none => simp
  | some value => cases value <;> simp

theorem keepdim?_eq_error {value : AttrValue} (hvalue : attrs.get? keepdimAttr = some value)
    (h : ∀ keep, value ≠ .bool keep) : keepdim? attrs = .error (.invalidKeepdim value.typeName) := by
  unfold keepdim?
  cases value with
  | bool keep => exact absurd rfl (h keep)
  | _ => simp [hvalue]

/-! ## Outcomes -/

/-- Resolution looks at the attributes only for the axes they ask for and for `keepdim`. -/
theorem resolve_of_asked (hrank : (rank : Int) ≤ Int64.maxValue.toInt) (h : Asked attrs rank axes)
    (bound : AxisBound) :
    resolve attrs rank bound =
      if inRange bound rank axes then settle attrs axes
      else .error (.axisOutOfRange axes rank) := by
  obtain ⟨value, listed, hvalue, hlists, hperm, hsorted⟩ := h
  have haxes : axes = normalise rank listed :=
    eq_of_perm_of_sorted (hperm.trans (normalise_perm hrank listed).symm) hsorted
      (normalise_pairwise rank listed)
  rw [haxes]
  simp only [resolve, hvalue, lists_iff.1 hlists]
  rfl

theorem Asked.sorted (h : Asked attrs rank axes) : axes.Pairwise (· ≤ ·) := by
  obtain ⟨_, _, _, _, _, hsorted⟩ := h
  exact hsorted

theorem resolve_of_outOfRange (hrank : (rank : Int) ≤ Int64.maxValue.toInt)
    (h : Asked attrs rank axes) (hout : OutOfRange bound rank axes) :
    resolve attrs rank bound = .error (.axisOutOfRange axes rank) := by
  rw [resolve_of_asked hrank h, if_neg fun hin => (inRange_iff_not_outOfRange h.sorted).1 hin hout]

theorem resolve_of_inRange (hrank : (rank : Int) ≤ Int64.maxValue.toInt)
    (h : Asked attrs rank axes) (hin : ¬ OutOfRange bound rank axes) :
    resolve attrs rank bound = settle attrs axes := by
  rw [resolve_of_asked hrank h, if_pos ((inRange_iff_not_outOfRange h.sorted).2 hin)]

def words (axes : List Int) : List UInt64 :=
  axes.map fun axis => UInt64.ofNat axis.toNat

theorem words_eq {resolved : List UInt64} (h : resolved.map (fun axis => (axis.toNat : Int)) = axes) :
    words axes = resolved := by
  rw [← h, words, List.map_map]
  conv_rhs => rw [← List.map_id resolved]
  refine List.map_congr_left fun axis _ => ?_
  simp

theorem map_toNat_words (h : ∀ axis ∈ axes, 0 ≤ axis ∧ axis < 2 ^ 63) :
    (words axes).map (fun axis => (axis.toNat : Int)) = axes := by
  rw [words, List.map_map]
  conv_rhs => rw [← List.map_id axes]
  refine List.map_congr_left fun axis haxis => ?_
  obtain ⟨hzero, hlt⟩ := h axis haxis
  have hword : (UInt64.ofNat axis.toNat).toNat = axis.toNat :=
    UInt64.toNat_ofNat_of_lt' (show axis.toNat < 2 ^ 64 by omega)
  rw [Function.comp_apply, hword, id_eq]
  omega

section Outcomes

variable (op : String) (attrs : AttrStore) (rank : Nat) (bound : AxisBound)

/-- What resolution gives. Each case takes for granted that none of those before it applies. -/
inductive Outcome : Except StrategyError ReduceAxes → Prop
  | missing : attrs.get? axisAttr = none →
      Outcome (.error (.fault op (.missingAttribute axisAttr)))
  | wrongType {value : AttrValue} : attrs.get? axisAttr = some value →
      (∀ listed, ¬ Lists value listed) →
      Outcome (.error (.fault op (.invalidAttributeType axisAttr value.typeName)))
  | outOfRange {axes : List Int} : Asked attrs rank axes → OutOfRange bound rank axes →
      Outcome (.error (.fault op (.axisOutOfRange axes rank)))
  | duplicate {axes : List Int} {axis : Nat} : Asked attrs rank axes →
      ¬ OutOfRange bound rank axes → axes.Duplicate (axis : Int) →
      (∀ other, axes.Duplicate other → (axis : Int) ≤ other) →
      Outcome (.error (.fault op (.duplicateAxis axis)))
  | wrongKeepdim {axes : List Int} {value : AttrValue} : Asked attrs rank axes →
      ¬ OutOfRange bound rank axes → axes.Nodup → attrs.get? keepdimAttr = some value →
      (∀ keep, value ≠ .bool keep) →
      Outcome (.error (.fault op (.invalidKeepdim value.typeName)))
  | resolved {axes : List Int} {resolved : ReduceAxes} : Asked attrs rank axes →
      ¬ OutOfRange bound rank axes → axes.Pairwise (· < ·) →
      (attrs.get? keepdimAttr).getD (.bool false) = .bool resolved.keepdim →
      resolved.axes.map (fun axis => (axis.toNat : Int)) = axes → Outcome (.ok resolved)

theorem exists_outcome_of_asked (hrank : (rank : Int) ≤ Int64.maxValue.toInt)
    (h : Asked attrs rank axes) : ∃ r, Outcome op attrs rank bound r := by
  by_cases hout : OutOfRange bound rank axes
  · exact ⟨_, .outOfRange h hout⟩
  have hinside : ∀ axis ∈ axes, 0 ≤ axis ∧ axis < 2 ^ 63 := by
    intro axis haxis
    have hpositive : ¬ axis < 0 := fun hlt => hout (.inr ⟨axis, haxis, .inl hlt⟩)
    exact ⟨Int.not_lt.1 hpositive, (asked_fits hrank h axis haxis).2⟩
  cases hrepeated : repeated? axes with
  | some axis =>
      obtain ⟨hduplicate, hleast⟩ := duplicate_of_repeated? h.sorted hrepeated
      have hnat : ((axis.toNat : Nat) : Int) = axis :=
        Int.toNat_of_nonneg (hinside axis hduplicate.mem).1
      rw [← hnat] at hduplicate hleast
      exact ⟨_, .duplicate h hout hduplicate hleast⟩
  | none =>
      have hincreasing := pairwise_lt_of_repeated? h.sorted hrepeated
      cases hkeep : keepdim? attrs with
      | ok keep =>
          exact ⟨.ok ⟨words axes, keep⟩, .resolved h hout hincreasing (keepdim?_eq_ok_iff.1 hkeep)
            (map_toNat_words hinside)⟩
      | error fault =>
          cases hvalue : attrs.get? keepdimAttr with
          | none => simp [keepdim?, hvalue] at hkeep
          | some value =>
              refine ⟨_, .wrongKeepdim h hout (hincreasing.imp Int.ne_of_lt) hvalue fun keep heq => ?_⟩
              simp [keepdim?, hvalue, heq] at hkeep

theorem exists_outcome (hrank : (rank : Int) ≤ Int64.maxValue.toInt) :
    ∃ r, Outcome op attrs rank bound r := by
  cases hvalue : attrs.get? axisAttr with
  | none => exact ⟨_, .missing hvalue⟩
  | some value =>
      by_cases hlists : ∃ listed, Lists value listed
      · obtain ⟨listed, hlisted⟩ := hlists
        exact exists_outcome_of_asked op attrs rank bound hrank (asked_normalise hrank hvalue hlisted)
      · exact ⟨_, .wrongType hvalue (not_exists.1 hlists)⟩

variable {op attrs rank bound}

theorem resolveAxes_of_outcome (hrank : (rank : Int) ≤ Int64.maxValue.toInt)
    {r : Except StrategyError ReduceAxes} (h : Outcome op attrs rank bound r) :
    resolveAxes op attrs rank bound = r := by
  unfold resolveAxes
  cases h with
  | missing hvalue => simp [resolve, hvalue]
  | @wrongType value hvalue hnone =>
      have hlisted : listed? value = none := by
        rw [Option.eq_none_iff_forall_ne_some]
        exact fun listed h => hnone listed (lists_iff.2 h)
      simp [resolve, hvalue, hlisted]
  | outOfRange hasked hout => rw [resolve_of_outOfRange hrank hasked hout, Except.mapError_error]
  | @duplicate axes axis hasked hin hduplicate hleast =>
      rw [resolve_of_inRange hrank hasked hin, settle]
      cases hrepeated : repeated? axes with
      | none =>
          have hnodup := (pairwise_lt_of_repeated? hasked.sorted hrepeated).imp Int.ne_of_lt
          exact absurd hnodup hduplicate.not_nodup
      | some other =>
          -- Both are the smallest repeated axis.
          obtain ⟨hduplicate', hleast'⟩ := duplicate_of_repeated? hasked.sorted hrepeated
          have heq : other = axis := Int.le_antisymm (hleast' _ hduplicate) (hleast _ hduplicate')
          simp [heq]
  | @wrongKeepdim axes value hasked hin hnodup hvalue hother =>
      rw [resolve_of_inRange hrank hasked hin, settle, repeated?_eq_none hasked.sorted hnodup]
      simp [keepdim?_eq_error hvalue hother]
  | @resolved axes resolved hasked hin hincreasing hkeep hwords =>
      have hnodup := hincreasing.imp Int.ne_of_lt
      have haxes := words_eq hwords
      rw [words] at haxes
      rw [resolve_of_inRange hrank hasked hin, settle, repeated?_eq_none hasked.sorted hnodup]
      simp [keepdim?_eq_ok_iff.2 hkeep, haxes]

end Outcomes

/-! ## Different ways to ask for the same axes -/

/-- The second value asks for the same axes as the first in another way: in another order, with
wider words, with one of them counted from the other end, or by an empty list for all of them. -/
inductive Restates (rank : Nat) : AttrValue → AttrValue → Prop
  | permuted64 {values values' : List Int64} : values.Perm values' →
      Restates rank (.int64s values) (.int64s values')
  | permuted32 {values values' : List Int32} : values.Perm values' →
      Restates rank (.int32s values) (.int32s values')
  | widened (values : List Int32) :
      Restates rank (.int32s values) (.int64s (values.map Int32.toInt64))
  | fromEnd (front back : List Int64) {axis : Int64} : 0 ≤ axis.toInt → axis.toInt < rank →
      Restates rank (.int64s (front ++ (axis - Int64.ofNat rank) :: back))
        (.int64s (front ++ axis :: back))
  | all : Restates rank (.bool true) (.int64s [])

theorem counted_perm {listed' : List Int} (h : listed.Perm listed') :
    (counted rank listed).Perm (counted rank listed') := by
  have hnil : listed = [] ↔ listed' = [] := by
    rw [← List.length_eq_zero_iff, ← List.length_eq_zero_iff, h.length_eq]
  rw [counted, counted]
  by_cases hempty : listed = []
  · rw [if_pos hempty, if_pos (hnil.1 hempty)]
  · rw [if_neg hempty, if_neg (hnil.not.1 hempty)]
    exact h.map _

theorem toInt_sub_rank (hrank : (rank : Int) ≤ Int64.maxValue.toInt) {axis : Int64}
    (hzero : 0 ≤ axis.toInt) : (axis - Int64.ofNat rank).toInt = axis.toInt - rank := by
  have hmax : Int64.maxValue.toInt = 2 ^ 63 - 1 := rfl
  have hlt := axis.toInt_lt
  rw [Int64.toInt_sub, Int64.toInt_ofNat_of_lt (by omega)]
  exact Int.bmod_eq_of_le (by omega) (by omega)

theorem toInt_add_rank (hrank : (rank : Int) ≤ Int64.maxValue.toInt) {axis : Int}
    (hfits : -2 ^ 63 ≤ axis) (hnegative : axis < 0) :
    (Int64.ofInt axis + Int64.ofNat rank).toInt = axis + rank := by
  have hmax : Int64.maxValue.toInt = 2 ^ 63 - 1 := rfl
  rw [Int64.toInt_add, Int64.toInt_ofInt_of_le hfits (by omega), Int64.toInt_ofNat_of_lt (by omega)]
  exact Int.bmod_eq_of_le (by omega) (by omega)

theorem Restates.counted_perm (hrank : (rank : Int) ≤ Int64.maxValue.toInt)
    {value value' : AttrValue} (h : Restates rank value value') :
    ∃ listed listed', Lists value listed ∧ Lists value' listed' ∧
      (counted rank listed).Perm (counted rank listed') := by
  cases h with
  | permuted64 hperm => exact ⟨_, _, .int64s _, .int64s _, ReduceAxes.counted_perm (hperm.map _)⟩
  | permuted32 hperm => exact ⟨_, _, .int32s _, .int32s _, ReduceAxes.counted_perm (hperm.map _)⟩
  | widened values =>
      refine ⟨_, _, .int32s _, .int64s _, .of_eq ?_⟩
      rw [List.map_map]
      refine congrArg (counted rank) (List.map_congr_left fun word _ => ?_)
      exact (Int32.toInt_toInt64 word).symm
  | fromEnd front back hzero hlt =>
      refine ⟨_, _, .int64s _, .int64s _, .of_eq ?_⟩
      have hword := toInt_sub_rank hrank hzero
      rw [counted, counted, if_neg (by simp), if_neg (by simp)]
      simp only [List.map_append, List.map_cons, hword]
      rw [if_pos (by omega), if_neg (by omega), Int.sub_add_cancel]
  | all => exact ⟨_, _, .all, .int64s _, .refl _⟩

theorem resolve_congr (hrank : (rank : Int) ≤ Int64.maxValue.toInt) {attrs' : AttrStore}
    (h : Asked attrs rank axes) (h' : Asked attrs' rank axes)
    (hkeep : attrs.get? keepdimAttr = attrs'.get? keepdimAttr) :
    resolve attrs rank bound = resolve attrs' rank bound := by
  have hkeep? : keepdim? attrs = keepdim? attrs' := by rw [keepdim?, keepdim?, hkeep]
  rw [resolve_of_asked hrank h, resolve_of_asked hrank h', settle, settle, hkeep?]

theorem resolve_restates (hrank : (rank : Int) ≤ Int64.maxValue.toInt) (attrs : AttrStore)
    (bound : AxisBound) {value value' : AttrValue} (h : Restates rank value value') :
    resolve (attrs.insert axisAttr value) rank bound =
      resolve (attrs.insert axisAttr value') rank bound := by
  obtain ⟨listed, listed', hlists, hlists', hperm⟩ := h.counted_perm hrank
  have hget (v : AttrValue) : (attrs.insert axisAttr v).get? axisAttr = some v := by
    rw [AttrStore.get?_insert, if_pos rfl]
  have hkeep (v : AttrValue) : (attrs.insert axisAttr v).get? keepdimAttr = attrs.get? keepdimAttr := by
    rw [AttrStore.get?_insert, if_neg (by decide)]
  have hasked := asked_normalise hrank (hget value) hlists
  have hasked' : Asked (attrs.insert axisAttr value') rank (normalise rank listed) :=
    ⟨value', listed', hget value', hlists', (normalise_perm hrank listed).trans hperm,
      normalise_pairwise rank listed⟩
  exact resolve_congr hrank hasked hasked' ((hkeep value).trans (hkeep value').symm)

/-- For every rank that a signed word can hold, resolution gives the one result that `Outcome`
allows. Adding the rank to a negative axis does not overflow, and each of the axes is a signed word,
also of those that an error reports. The outcome depends only on which axes are asked for, however
that is written, and on `keepdim`. -/
theorem axis_resolution (op : String) (attrs : AttrStore) (rank : Nat) (bound : AxisBound)
    (hrank : (rank : Int) ≤ Int64.maxValue.toInt) :
    (∀ r, resolveAxes op attrs rank bound = r ↔ Outcome op attrs rank bound r) ∧
    (∀ value listed, attrs.get? axisAttr = some value → Lists value listed →
      ∀ axis ∈ listed, axis < 0 →
        (Int64.ofInt axis + Int64.ofNat rank).toInt = axis + rank) ∧
    (∀ axes, Asked attrs rank axes → ∀ axis ∈ axes, (Int64.ofInt axis).toInt = axis) ∧
    (∀ value value', Restates rank value value' →
      resolveAxes op (attrs.insert axisAttr value) rank bound =
        resolveAxes op (attrs.insert axisAttr value') rank bound) ∧
    ∀ attrs' : AttrStore, attrs'.get? axisAttr = attrs.get? axisAttr →
      attrs'.get? keepdimAttr = attrs.get? keepdimAttr →
      resolveAxes op attrs' rank bound = resolveAxes op attrs rank bound := by
  refine ⟨fun r => ⟨?_, resolveAxes_of_outcome hrank⟩, ?_, ?_, ?_, ?_⟩
  · rintro rfl
    obtain ⟨r, hr⟩ := exists_outcome op attrs rank bound hrank
    rw [resolveAxes_of_outcome hrank hr]
    exact hr
  · intro value listed _ hlists axis haxis hnegative
    exact toInt_add_rank hrank (listed_fits hlists axis haxis).1 hnegative
  · intro axes h axis haxis
    obtain ⟨hle, hlt⟩ := asked_fits hrank h axis haxis
    exact Int64.toInt_ofInt_of_le hle hlt
  · intro value value' h
    rw [resolveAxes, resolveAxes, resolve_restates hrank attrs bound h]
  · intro attrs' haxis hkeep
    rw [resolveAxes, resolveAxes, resolve, resolve, haxis, keepdim?, keepdim?, hkeep]

def outer : AttrStore :=
  AttrStore.ofList [(axisAttr, .int64s [-1, 0])]

theorem axis_resolution_outer :
    ((3 : Nat) : Int) ≤ Int64.maxValue.toInt ∧
      resolveAxes "reduce_sum" outer 3 .exclusive = .ok ⟨[0, 2], false⟩ ∧
      (Int64.ofInt (-1) + Int64.ofNat 3).toInt = 2 ∧
      resolveAxes "reduce_sum" (outer.insert axisAttr (.int64s [0, -1])) 3 .exclusive =
        resolveAxes "reduce_sum" (outer.insert axisAttr (.int64s [0, 2])) 3 .exclusive := by
  have hrank : ((3 : Nat) : Int) ≤ Int64.maxValue.toInt := by decide
  obtain ⟨houtcome, hsum, _, hrestates, _⟩ := axis_resolution "reduce_sum" outer 3 .exclusive hrank
  have hlists : Lists (.int64s [-1, 0]) [-1, 0] := .int64s [-1, 0]
  have hasked : Asked outer 3 [0, 2] := ⟨_, _, rfl, hlists, by decide, by decide⟩
  have hin : ¬ OutOfRange .exclusive 3 [0, 2] := by
    simp [OutOfRange, Beyond]
  exact ⟨hrank, (houtcome _).2 (.resolved hasked hin (by decide) rfl rfl),
    hsum _ _ rfl hlists (-1) (by decide) (by decide),
    hrestates _ _ (@Restates.fromEnd 3 [0] [] 2 (by decide) (by decide))⟩

end Reductions.ReduceAxes
