import Mathlib.Algebra.Group.Nat.Defs
import Reductions.Number.Binary64

/-!
# Doubles of whole numbers

A whole number that a 64-bit word holds is far below the greatest double, so the
double nearest to it is finite.
-/

namespace Reductions.Binary64

theorem isFinite_ofMagnitude (negative : Bool) {m : Nat} (h : m < specialField * leadingBit) :
    (ofMagnitude negative m).isFinite = true := by
  have hspecial : specialField * leadingBit = 9218868437227405312 := rfl
  have hbits : (ofMagnitude negative m).bits.toNat = (if negative then signBit else 0) + m := by
    apply UInt64.toNat_ofNat_of_lt'
    simp only [signBit, UInt64.size]
    split <;> omega
  have hmagnitude : (ofMagnitude negative m).magnitude = m := by
    rw [magnitude, hbits]
    simp only [signBit]
    split <;> omega
  rw [isFinite, exponentField, hmagnitude, decide_eq_true_eq]
  exact Nat.div_lt_of_lt_mul (by rwa [Nat.mul_comm])

theorem roundToEven_le (num den : Nat) : roundToEven num den ≤ num / den + 1 := by
  have hparity : num / den % 2 ≤ 1 := by omega
  simp only [roundToEven]
  split
  · omega
  · split <;> omega

/-- The last place is not so far down that the number has more than fifty-four places above it. -/
theorem log2_le_placeOf (num den : Nat) (hden : Nat.log2 den = 0) :
    (Nat.log2 num : Int) ≤ placeOf num den + 53 := by
  simp only [placeOf, hden]
  split <;> omega

theorem placeOf_le {num den : Nat} (hnum : Nat.log2 num ≤ 63) : placeOf num den ≤ 11 := by
  simp only [placeOf, leastExponent]
  split <;> omega

theorem scaled_quotient_lt {num : Nat} {place : Int} (h : (Nat.log2 num : Int) ≤ place + 53) :
    (scaled num 1 (-place)).1 / (scaled num 1 (-place)).2 < 2 ^ 54 := by
  have hnum : num < 2 ^ (Nat.log2 num + 1) := Nat.lt_log2_self
  simp only [scaled, Nat.shiftLeft_eq, Nat.one_mul, Int.neg_neg]
  rw [Nat.div_lt_iff_lt_mul (Nat.two_pow_pos _), ← Nat.pow_add]
  calc num * 2 ^ (-place).toNat
      < 2 ^ (Nat.log2 num + 1) * 2 ^ (-place).toNat := Nat.mul_lt_mul_of_pos_right hnum (Nat.two_pow_pos _)
    _ = 2 ^ (Nat.log2 num + 1 + (-place).toNat) := (Nat.pow_add ..).symm
    _ ≤ 2 ^ (54 + place.toNat) := Nat.pow_le_pow_right (by decide) (by omega)

theorem isFinite_ofFraction_one (negative : Bool) {num : Nat} (hnum : num < 2 ^ 64) :
    (ofFraction negative num 1).isFinite = true := by
  rw [ofFraction]
  split
  · exact isFinite_ofMagnitude negative (by decide)
  · next hzero =>
    have hlog : Nat.log2 num < 64 := (Nat.log2_lt hzero).2 hnum
    have hplace : placeOf num 1 ≤ 11 := placeOf_le (by omega)
    have hquotient := scaled_quotient_lt (log2_le_placeOf num 1 (by decide))
    have hround := roundToEven_le (scaled num 1 (-placeOf num 1)).1 (scaled num 1 (-placeOf num 1)).2
    have hplaces : (placeOf num 1 - leastExponent).toNat ≤ 1085 := by
      simp only [leastExponent]
      omega
    apply isFinite_ofMagnitude
    apply Nat.lt_of_le_of_lt (Nat.min_le_left _ _)
    change (placeOf num 1 - leastExponent).toNat * leadingBit +
      roundToEven (scaled num 1 (-placeOf num 1)).1 (scaled num 1 (-placeOf num 1)).2 < _
    simp only [specialField, leadingBit]
    omega

theorem isFinite_ofInt {n : Int} (h : n.natAbs < 2 ^ 64) : (ofInt n).isFinite = true :=
  isFinite_ofFraction_one _ h

end Reductions.Binary64
