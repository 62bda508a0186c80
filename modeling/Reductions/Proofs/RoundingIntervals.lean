import Mathlib.Algebra.Order.Field.Power
import Mathlib.Algebra.Order.Ring.Rat
import Mathlib.Order.Monotone.Basic
import Mathlib.Tactic.Linarith
import Mathlib.Tactic.Positivity
import Mathlib.Tactic.Ring
import Reductions.Number.Shortest

/-!
# Rounding intervals

The numbers that round to a double lie between the midpoints to its neighbours.
Where the interval of one magnitude ends, that of the next one begins, and the
midpoint belongs to the one of them whose significand is even. So no number
rounds to two magnitudes.
-/

namespace Reductions.Shortest

open Binary64 (leadingBit)

/-! ## Ends of the intervals -/

def significandAt (m : Nat) : Nat :=
  if m / leadingBit = 0 then m % leadingBit else leadingBit + m % leadingBit

/-- How far the last place of a magnitude is above the least place of all. -/
def placeAt (m : Nat) : Nat :=
  max (m / leadingBit) 1 - 1

/-- The distance to the lower end, in quarters of the last place. -/
def belowAt (m : Nat) : Nat :=
  if m % leadingBit = 0 ∧ 1 < m / leadingBit then 1 else 2

/-- The lower end of the interval of a magnitude, in quarters of the least place. -/
def lowAt (m : Nat) : Nat :=
  (4 * significandAt m - belowAt m) * 2 ^ placeAt m

def highAt (m : Nat) : Nat :=
  (4 * significandAt m + 2) * 2 ^ placeAt m

theorem lowAt_lt_highAt (m : Nat) : lowAt m < highAt m := by
  apply Nat.mul_lt_mul_of_pos_right _ (Nat.two_pow_pos _)
  omega

theorem succ_of_carry {m : Nat} (h : m % leadingBit + 1 = leadingBit) :
    (m + 1) / leadingBit = m / leadingBit + 1 ∧ (m + 1) % leadingBit = 0 := by
  simp only [leadingBit] at h ⊢
  omega

theorem succ_of_not_carry {m : Nat} (h : m % leadingBit + 1 ≠ leadingBit) :
    (m + 1) / leadingBit = m / leadingBit ∧ (m + 1) % leadingBit = m % leadingBit + 1 := by
  simp only [leadingBit] at h ⊢
  omega

theorem lowAt_succ (m : Nat) : lowAt (m + 1) = highAt m := by
  by_cases hcarry : m % leadingBit + 1 = leadingBit
  · obtain ⟨hfield, hfraction⟩ := succ_of_carry hcarry
    have hsignificand : significandAt (m + 1) = leadingBit := by
      rw [significandAt, hfield, hfraction, if_neg (Nat.succ_ne_zero _), Nat.add_zero]
    by_cases hzero : m / leadingBit = 0
    · -- From the last subnormal number to the first normal one the place stays.
      have hplace : placeAt (m + 1) = placeAt m := by
        rw [placeAt, placeAt, hfield, hzero]
        rfl
      have hbelow : belowAt (m + 1) = 2 := by
        rw [belowAt, hfield, hzero, if_neg (by omega)]
      have hsignificand' : significandAt m + 1 = leadingBit := by
        rwa [significandAt, if_pos hzero]
      rw [lowAt, highAt, hplace, hsignificand, hbelow, ← hsignificand']
      congr 1
    · have hnormal : 1 ≤ m / leadingBit := Nat.one_le_iff_ne_zero.2 hzero
      have hplace : placeAt (m + 1) = placeAt m + 1 := by
        rw [placeAt, placeAt, hfield]
        omega
      have hbelow : belowAt (m + 1) = 1 := by
        rw [belowAt, hfield, if_pos ⟨hfraction, by omega⟩]
      have hsignificand' : significandAt m + 1 = 2 * leadingBit := by
        rw [significandAt, if_neg hzero]
        omega
      have hends : 2 * (4 * leadingBit - 1) = 4 * significandAt m + 2 := by
        omega
      rw [lowAt, highAt, hplace, hsignificand, hbelow, ← hends, Nat.pow_succ]
      ring
  · obtain ⟨hfield, hfraction⟩ := succ_of_not_carry hcarry
    have hplace : placeAt (m + 1) = placeAt m := by
      rw [placeAt, hfield, placeAt]
    have hsignificand : significandAt (m + 1) = significandAt m + 1 := by
      rw [significandAt, significandAt, hfield, hfraction]
      split <;> omega
    have hbelow : belowAt (m + 1) = 2 := by
      rw [belowAt, hfraction, if_neg (by omega)]
    rw [lowAt, highAt, hplace, hsignificand, hbelow]
    congr 1

theorem lowAt_strictMono : StrictMono lowAt := by
  apply strictMono_nat_of_lt_succ
  intro m
  rw [lowAt_succ]
  exact lowAt_lt_highAt m

theorem significandAt_mod_two (m : Nat) : significandAt m % 2 = m % 2 := by
  have hodd : (leadingBit + m % leadingBit) % 2 = m % 2 ∧ m % leadingBit % 2 = m % 2 := by
    simp only [leadingBit]
    omega
  rw [significandAt]
  split
  · exact hodd.2
  · exact hodd.1

/-! ## Numbers in an interval -/

def Interval.unitValue (i : Interval) : ℚ :=
  i.unit.1 / i.unit.2

/-- The number rounds to the double of the interval. The ends do if the significand is even. -/
def Interval.Admits (i : Interval) (q : ℚ) : Prop :=
  if i.inclusive then i.low * i.unitValue ≤ q ∧ q ≤ i.high * i.unitValue
  else i.low * i.unitValue < q ∧ q < i.high * i.unitValue

theorem pow_toNat_div (b : ℕ) (hb : b ≠ 0) (p : ℤ) :
    ((b ^ p.toNat : ℕ) : ℚ) / ((b ^ (-p).toNat : ℕ) : ℚ) = (b : ℚ) ^ p := by
  have hb' : (b : ℚ) ≠ 0 := Nat.cast_ne_zero.2 hb
  rw [Nat.cast_pow, Nat.cast_pow, ← zpow_natCast, ← zpow_natCast, ← zpow_sub₀ hb',
    Int.toNat_sub_toNat_neg]

theorem unitValue_interval (x : Binary64) :
    (interval x).unitValue = 2 ^ placeAt x.magnitude * (2 : ℚ) ^ (-1076 : ℤ) := by
  have hexponent : x.exponent - 2 = placeAt x.magnitude + -1076 := by
    rw [Binary64.exponent, Binary64.leastExponent]
    change (-1074 : ℤ) + (placeAt x.magnitude : ℤ) - 2 = _
    omega
  have hunit := pow_toNat_div 2 (by decide) (x.exponent - 2)
  rw [Interval.unitValue, interval, Binary64.scaled, Nat.shiftLeft_eq, Nat.shiftLeft_eq,
    Nat.one_mul, Nat.one_mul, hunit, hexponent, Nat.cast_ofNat, zpow_add₀ two_ne_zero,
    zpow_natCast]

theorem low_mul_unitValue (x : Binary64) :
    (interval x).low * (interval x).unitValue = lowAt x.magnitude * (2 : ℚ) ^ (-1076 : ℤ) := by
  rw [unitValue_interval, ← mul_assoc, lowAt, Nat.cast_mul, Nat.cast_pow]
  rfl

theorem high_mul_unitValue (x : Binary64) :
    (interval x).high * (interval x).unitValue = highAt x.magnitude * (2 : ℚ) ^ (-1076 : ℤ) := by
  rw [unitValue_interval, ← mul_assoc, highAt, Nat.cast_mul, Nat.cast_pow]
  rfl

theorem inclusive_interval (x : Binary64) :
    (interval x).inclusive = true ↔ significandAt x.magnitude % 2 = 0 :=
  beq_iff_eq

theorem Interval.Admits.bounds {i : Interval} {q : ℚ} (h : i.Admits q) :
    i.low * i.unitValue ≤ q ∧ q ≤ i.high * i.unitValue := by
  rw [Admits] at h
  split at h
  · exact h
  · exact ⟨h.1.le, h.2.le⟩

/-- Neighbouring magnitudes share no number: one of them does not have the midpoint. -/
theorem not_admits_succ {x y : Binary64} (hnext : y.magnitude = x.magnitude + 1) {q : ℚ}
    (hx : (interval x).Admits q) (hy : (interval y).Admits q) : False := by
  have hmeet : (interval x).high * (interval x).unitValue =
      (interval y).low * (interval y).unitValue := by
    rw [high_mul_unitValue, low_mul_unitValue, hnext, lowAt_succ]
  have hq : q = (interval x).high * (interval x).unitValue :=
    le_antisymm hx.bounds.2 (hmeet ▸ hy.bounds.1)
  have hparity : significandAt y.magnitude % 2 ≠ significandAt x.magnitude % 2 := by
    rw [significandAt_mod_two, significandAt_mod_two, hnext]
    omega
  have hevenx : significandAt x.magnitude % 2 = 0 := by
    by_contra hodd
    rw [Interval.Admits, if_neg (mt (inclusive_interval x).1 hodd)] at hx
    exact absurd hx.2 (hq ▸ lt_irrefl _)
  have heveny : significandAt y.magnitude % 2 = 0 := by
    by_contra hodd
    rw [Interval.Admits, if_neg (mt (inclusive_interval y).1 hodd)] at hy
    exact absurd hy.1 ((hq.trans hmeet) ▸ lt_irrefl _)
  omega

theorem not_admits_of_lt {x y : Binary64} (hlt : x.magnitude < y.magnitude) {q : ℚ}
    (hx : (interval x).Admits q) (hy : (interval y).Admits q) : False := by
  rcases Nat.lt_or_eq_of_le (Nat.succ_le_of_lt hlt) with hfar | hnext
  · have hbetween : highAt x.magnitude < lowAt y.magnitude := by
      rw [← lowAt_succ]
      exact lowAt_strictMono hfar
    have hends : (highAt x.magnitude : ℚ) < lowAt y.magnitude := Nat.cast_lt.2 hbetween
    have hupper := hx.bounds.2
    have hlower := hy.bounds.1
    rw [high_mul_unitValue] at hupper
    rw [low_mul_unitValue] at hlower
    have hunit : (0 : ℚ) < 2 ^ (-1076 : ℤ) := zpow_pos two_pos _
    exact absurd (hlower.trans hupper) (not_le.2 (mul_lt_mul_of_pos_right hends hunit))
  · exact not_admits_succ hnext.symm hx hy

theorem magnitude_eq_of_admits {x y : Binary64} {q : ℚ} (hx : (interval x).Admits q)
    (hy : (interval y).Admits q) : x.magnitude = y.magnitude := by
  rcases Nat.lt_trichotomy x.magnitude y.magnitude with hlt | heq | hgt
  · exact (not_admits_of_lt hlt hx hy).elim
  · exact heq
  · exact (not_admits_of_lt hgt hy hx).elim

end Reductions.Shortest
