import Mathlib.Tactic.FieldSimp
import Mathlib.Tactic.NormNum
import Reductions.Proofs.RoundingIntervals

/-!
# The shortest decimal rounds to its double

The search for the shortest decimal tests grid points exactly, so whatever it
finds lies in the rounding interval. It always finds something: on the grid of
seventeen digits the two points around a double are closer together than the
ends of its interval.
-/

namespace Reductions.Shortest

open Binary64 (tenPower)

def Decimal.value (d : Decimal) : ℚ :=
  d.digits * 10 ^ d.exponent

/-! ## Exact tests -/

theorem tenPower_value (p : ℤ) : ((tenPower p).1 : ℚ) / (tenPower p).2 = 10 ^ p :=
  pow_toNat_div 10 (by decide) p

theorem tenPower_pos (p : ℤ) : 0 < (tenPower p).2 :=
  Nat.pow_pos (by decide)

section Tests

variable {i : Interval} (hunit : 0 < i.unit.2) (p : ℤ) (d k : ℕ)

include hunit

theorem exists_common_denominator : ∃ common : ℚ, 0 < common ∧
    (k * i.unitValue) * common = ((k * i.unit.1 * (tenPower p).2 : ℕ) : ℚ) ∧
    (d * 10 ^ p) * common = ((d * (tenPower p).1 * i.unit.2 : ℕ) : ℚ) := by
  have hunit' : (0 : ℚ) < i.unit.2 := Nat.cast_pos.2 hunit
  have hten : (0 : ℚ) < (tenPower p).2 := Nat.cast_pos.2 (tenPower_pos p)
  refine ⟨i.unit.2 * (tenPower p).2, mul_pos hunit' hten, ?_, ?_⟩
  · rw [Interval.unitValue]
    push_cast
    field_simp
  · rw [← tenPower_value]
    push_cast
    field_simp

theorem end_le_iff :
    k * i.unit.1 * (tenPower p).2 ≤ d * (tenPower p).1 * i.unit.2 ↔
      (k : ℚ) * i.unitValue ≤ d * 10 ^ p := by
  obtain ⟨common, hpos, hend, hpoint⟩ := exists_common_denominator hunit p d k
  rw [← mul_le_mul_iff_of_pos_right hpos, hend, hpoint, Nat.cast_le]

theorem le_end_iff :
    d * (tenPower p).1 * i.unit.2 ≤ k * i.unit.1 * (tenPower p).2 ↔
      d * 10 ^ p ≤ (k : ℚ) * i.unitValue := by
  obtain ⟨common, hpos, hend, hpoint⟩ := exists_common_denominator hunit p d k
  rw [← mul_le_mul_iff_of_pos_right hpos, hend, hpoint, Nat.cast_le]

theorem admitsDecimal_iff : i.admitsDecimal p d = true ↔ i.Admits (d * 10 ^ p) := by
  have hlow := end_le_iff hunit p d i.low
  have hhigh := le_end_iff hunit p d i.high
  have hlow' := not_congr (le_end_iff hunit p d i.low)
  have hhigh' := not_congr (end_le_iff hunit p d i.high)
  rw [not_le, not_le] at hlow' hhigh'
  rw [Interval.Admits, ← hlow, ← hhigh, ← hlow', ← hhigh']
  change (if i.inclusive = true then _ else _) = true ↔ _
  split
  · rw [Bool.and_eq_true, decide_eq_true_iff, decide_eq_true_iff]
    exact Iff.rfl
  · rw [Bool.and_eq_true, decide_eq_true_iff, decide_eq_true_iff]
    exact Iff.rfl

theorem grid_around :
    (i.value * i.unit.1 * (tenPower p).2 / (i.unit.2 * (tenPower p).1) : ℕ) * (10 : ℚ) ^ p ≤
        i.value * i.unitValue ∧
      i.value * i.unitValue <
        (i.value * i.unit.1 * (tenPower p).2 / (i.unit.2 * (tenPower p).1) + 1 : ℕ) *
          (10 : ℚ) ^ p := by
  have hten : 0 < (tenPower p).1 := Nat.pow_pos (by decide)
  have hden : 0 < i.unit.2 * (tenPower p).1 := Nat.mul_pos hunit hten
  constructor
  · rw [← le_end_iff hunit, Nat.mul_assoc, Nat.mul_comm (tenPower p).1]
    exact Nat.div_mul_le_self _ _
  · rw [← not_le, ← le_end_iff hunit, not_le, Nat.mul_assoc _ (tenPower p).1,
      Nat.mul_comm (tenPower p).1]
    exact (Nat.div_lt_iff_lt_mul hden).1 (Nat.lt_succ_self _)

end Tests

/-! ## What the search finds -/

theorem unit_interval_pos (x : Binary64) : 0 < (interval x).unit.2 := by
  change 0 < 1 <<< _
  rw [Nat.shiftLeft_eq]
  exact Nat.mul_pos Nat.one_pos (Nat.two_pow_pos _)

theorem admits_of_withDigits? {i : Interval} (hunit : 0 < i.unit.2) {n : ℕ} {d : Decimal}
    (h : i.withDigits? n = some d) : i.Admits d.value := by
  rw [Interval.withDigits?] at h
  simp only at h
  split at h
  · next hfloor hceil =>
    obtain rfl := Option.some.inj h
    rw [Decimal.value, ← admitsDecimal_iff hunit]
    dsimp only
    split
    · exact hfloor
    · exact hceil
  · next hfloor _ =>
    obtain rfl := Option.some.inj h
    exact (admitsDecimal_iff hunit _ _).1 hfloor
  · next _ hceil =>
    obtain rfl := Option.some.inj h
    exact (admitsDecimal_iff hunit _ _).1 hceil
  · cases h

theorem admits_of_between {i : Interval} {q : ℚ} (hlow : i.low * i.unitValue < q)
    (hhigh : q < i.high * i.unitValue) : i.Admits q := by
  rw [Interval.Admits]
  split
  · exact ⟨hlow.le, hhigh.le⟩
  · exact ⟨hlow, hhigh⟩

/-- A grid that is finer than the interval is wide has a point around the value in it. -/
theorem exists_withDigits? {i : Interval} (hunit : 0 < i.unit.2) (hpos : 0 < i.unitValue)
    (hlow : i.low < i.value) (hhigh : i.value < i.high) {n : ℕ}
    (hwide : (10 : ℚ) ^ (i.leading - n + 1) < (i.high - i.low) * i.unitValue) :
    ∃ d, i.withDigits? n = some d := by
  obtain ⟨hfloor, hceil⟩ := grid_around hunit (i.leading - n + 1)
  have hlow' : i.low * i.unitValue < i.value * i.unitValue :=
    mul_lt_mul_of_pos_right (Nat.cast_lt.2 hlow) hpos
  have hhigh' : i.value * i.unitValue < i.high * i.unitValue :=
    mul_lt_mul_of_pos_right (Nat.cast_lt.2 hhigh) hpos
  rw [Interval.withDigits?]
  simp only
  split
  · exact ⟨_, rfl⟩
  · exact ⟨_, rfl⟩
  · exact ⟨_, rfl⟩
  · next hfloor' hceil' =>
    -- Both points lie outside, one at each end, so the grid is not that fine.
    exfalso
    rw [Bool.eq_false_iff, Ne, admitsDecimal_iff hunit] at hfloor' hceil'
    have hleft := le_of_not_gt fun h => hfloor' (admits_of_between h (hfloor.trans_lt hhigh'))
    have hright := le_of_not_gt fun h => hceil' (admits_of_between (hlow'.trans hceil) h)
    push_cast at hleft hright hwide
    linarith

/-! ## Seventeen digits -/

theorem pow_length_toDigits_le {m : ℕ} (h : m ≠ 0) :
    10 ^ ((Nat.toDigits 10 m).length - 1) ≤ m := by
  by_cases hone : (Nat.toDigits 10 m).length - 1 = 0
  · rw [hone]
    exact Nat.one_le_iff_ne_zero.2 h
  · rw [← not_lt, ← Nat.length_toDigits_le_iff (by decide) (Nat.pos_of_ne_zero hone)]
    omega

theorem zpow_leading_le {i : Interval} (hunit : 0 < i.unit.2)
    (hlarge : i.unit.2 ≤ i.value * i.unit.1 * 10 ^ depth) :
    (10 : ℚ) ^ i.leading ≤ i.value * i.unitValue := by
  have hunit' : (0 : ℚ) < i.unit.2 := Nat.cast_pos.2 hunit
  have hten : (0 : ℚ) < 10 := by norm_num
  have hwhole : i.value * i.unit.1 * 10 ^ depth / i.unit.2 ≠ 0 :=
    (Nat.div_pos hlarge hunit).ne'
  have hdigits := (Nat.le_div_iff_mul_le hunit).1 (pow_length_toDigits_le hwhole)
  have hlength : 0 < (Nat.toDigits 10 (i.value * i.unit.1 * 10 ^ depth / i.unit.2)).length :=
    Nat.length_toDigits_pos
  have hleading : i.leading =
      (((Nat.toDigits 10 (i.value * i.unit.1 * 10 ^ depth / i.unit.2)).length - 1 : ℕ) : ℤ) -
        (depth : ℕ) := by
    rw [Nat.cast_sub hlength, Nat.cast_one, Interval.leading]
    simp only [Nat.pow_eq]
  have hcast : (10 : ℚ) ^ ((Nat.toDigits 10
      (i.value * i.unit.1 * 10 ^ depth / i.unit.2)).length - 1) * i.unit.2 ≤
        i.value * i.unit.1 * 10 ^ depth := by
    exact_mod_cast hdigits
  rw [hleading, zpow_sub₀ hten.ne', zpow_natCast, zpow_natCast, Interval.unitValue,
    div_le_iff₀ (pow_pos hten _), mul_div_assoc', div_mul_eq_mul_div, le_div_iff₀ hunit']
  exact hcast

theorem two_pow_le_ten_pow {k n : ℕ} (h : k ≤ 3 * n) : 2 ^ k ≤ 10 ^ n :=
  calc 2 ^ k ≤ 2 ^ (3 * n) := Nat.pow_le_pow_right (by decide) h
    _ = (2 ^ 3) ^ n := Nat.pow_mul 2 3 n
    _ ≤ 10 ^ n := Nat.pow_le_pow_left (by decide) n

theorem significandAt_pos {m : ℕ} (h : m ≠ 0) : 0 < significandAt m := by
  rw [significandAt]
  split
  · next hzero =>
    have hdiv := Nat.div_add_mod m Binary64.leadingBit
    rw [hzero, Nat.mul_zero, Nat.zero_add] at hdiv
    omega
  · exact Nat.add_pos_left (by decide) _

theorem significandAt_lt (m : ℕ) : significandAt m < 2 ^ 53 := by
  have hmod : m % Binary64.leadingBit < Binary64.leadingBit := Nat.mod_lt _ (by decide)
  have hbit : Binary64.leadingBit = 2 ^ 52 := rfl
  rw [significandAt]
  split <;> omega

/-- Where the lower end is near, the significand is the least of its exponent. -/
theorem belowAt_cases (m : ℕ) : belowAt m = 2 ∨ belowAt m = 1 ∧ significandAt m = 2 ^ 52 := by
  rw [belowAt]
  split
  · next hpower =>
    have hfield : m / Binary64.leadingBit ≠ 0 := Nat.ne_zero_of_lt hpower.2
    refine .inr ⟨rfl, ?_⟩
    rw [significandAt, if_neg hfield, hpower.1]
    rfl
  · exact .inl rfl

variable {x : Binary64}

/-- The value lies inside, and the interval is wider than a part in `10 ^ 16` of it. -/
theorem interval_spec (h : x.magnitude ≠ 0) :
    (interval x).low < (interval x).value ∧ (interval x).value < (interval x).high ∧
      (interval x).value + 10 ^ 16 * (interval x).low < 10 ^ 16 * (interval x).high := by
  have hpos := significandAt_pos h
  have hlt := significandAt_lt x.magnitude
  change 4 * significandAt x.magnitude - belowAt x.magnitude < 4 * significandAt x.magnitude ∧
    4 * significandAt x.magnitude < 4 * significandAt x.magnitude + 2 ∧
    4 * significandAt x.magnitude +
        10 ^ 16 * (4 * significandAt x.magnitude - belowAt x.magnitude) <
      10 ^ 16 * (4 * significandAt x.magnitude + 2)
  rcases belowAt_cases x.magnitude with hfar | ⟨hnear, hleast⟩
  · rw [hfar]
    omega
  · rw [hnear, hleast]
    omega

/-- No double is so small that its leading digit is not found. -/
theorem unit_le_value (h : x.magnitude ≠ 0) :
    (interval x).unit.2 ≤ (interval x).value * (interval x).unit.1 * 10 ^ depth := by
  have hplace : (-(x.exponent - 2)).toNat ≤ 3 * depth := by
    rw [Binary64.exponent, Binary64.leastExponent, depth]
    omega
  have hvalue : 0 < (interval x).value := Nat.zero_lt_of_lt (interval_spec h).1
  have hunit : 0 < (interval x).unit.1 := by
    change 0 < 1 <<< _
    rw [Nat.shiftLeft_eq]
    exact Nat.mul_pos Nat.one_pos (Nat.two_pow_pos _)
  calc (interval x).unit.2 = 1 <<< (-(x.exponent - 2)).toNat := rfl
    _ = 2 ^ (-(x.exponent - 2)).toNat := by rw [Nat.shiftLeft_eq, Nat.one_mul]
    _ ≤ 10 ^ depth := two_pow_le_ten_pow hplace
    _ ≤ (interval x).value * (interval x).unit.1 * 10 ^ depth :=
        Nat.le_mul_of_pos_left _ (Nat.mul_pos hvalue hunit)

theorem unitValue_interval_pos (x : Binary64) : 0 < (interval x).unitValue := by
  rw [unitValue_interval]
  positivity

theorem exists_withDigits?_mostDigits (h : x.magnitude ≠ 0) :
    ∃ d, (interval x).withDigits? mostDigits = some d := by
  obtain ⟨hlow, hhigh, hwidth⟩ := interval_spec h
  have hpos := unitValue_interval_pos x
  have hleading := zpow_leading_le (unit_interval_pos x) (unit_le_value h)
  apply exists_withDigits? (unit_interval_pos x) hpos hlow hhigh
  have hten : (10 : ℚ) ≠ 0 := by norm_num
  have hgrid : (10 : ℚ) ^ ((interval x).leading - mostDigits + 1) * 10 ^ 16 =
      10 ^ (interval x).leading := by
    rw [← zpow_natCast, ← zpow_add₀ hten]
    congr 1
    rw [mostDigits]
    omega
  have hwidth' : ((interval x).value : ℚ) * (interval x).unitValue <
      10 ^ 16 * ((interval x).high - (interval x).low) * (interval x).unitValue := by
    apply mul_lt_mul_of_pos_right _ hpos
    have hcast : ((interval x).value + 10 ^ 16 * (interval x).low : ℚ) <
        10 ^ 16 * (interval x).high := by
      exact_mod_cast hwidth
    linarith
  linarith

/-- The shortest decimal of a double lies in its rounding interval. -/
theorem admits_decimal (h : x.magnitude ≠ 0) : (interval x).Admits (decimal x).value := by
  obtain ⟨d, hd⟩ := exists_withDigits?_mostDigits h
  change (interval x).Admits
    (((List.range' 1 mostDigits).findSome? (interval x).withDigits?).getD ⟨0, 0⟩).value
  cases hfound : (List.range' 1 mostDigits).findSome? (interval x).withDigits? with
  | none =>
      have hnone := List.findSome?_eq_none_iff.1 hfound mostDigits (by decide)
      rw [hd] at hnone
      cases hnone
  | some d' =>
      obtain ⟨n, _, hn⟩ := List.exists_of_findSome?_eq_some hfound
      exact admits_of_withDigits? (unit_interval_pos x) hn

theorem decimal_value_pos (h : x.magnitude ≠ 0) : 0 < (decimal x).value := by
  have hlow : 0 < (interval x).low := by
    have hpos := significandAt_pos h
    change 0 < 4 * significandAt x.magnitude - belowAt x.magnitude
    rcases belowAt_cases x.magnitude with hfar | ⟨hnear, _⟩ <;> omega
  calc (0 : ℚ) < (interval x).low * (interval x).unitValue :=
        mul_pos (Nat.cast_pos.2 hlow) (unitValue_interval_pos x)
    _ ≤ (decimal x).value := (admits_decimal h).bounds.1

end Reductions.Shortest
