import Reductions.Number.Numeral

/-!
# Reading numerals back

The digits that are written for a number, in any base up to sixteen, read as
that number. No sign and no blank is a digit, so a numeral also reads as itself
where a sign may stand in front of it.
-/

namespace Reductions.Numeral

variable {base n : Nat}

theorem digitValue?_digitChar {d : Nat} (h : d < 16) : digitValue? d.digitChar = some d := by
  revert d
  decide

theorem pushDigit?_digitChar {d : Nat} (hbase : base ≤ 16) (h : d < base) (value : Nat) :
    pushDigit? base value d.digitChar = some (value * base + d) := by
  simp [pushDigit?, digitValue?_digitChar (Nat.lt_of_lt_of_le h hbase), h]

theorem foldlM_pushDigit?_toDigits (hone : 1 < base) (hbase : base ≤ 16) (n : Nat) :
    (Nat.toDigits base n).foldlM (pushDigit? base) 0 = some n := by
  induction n using Nat.strongRecOn with
  | ind n ih =>
      by_cases h : n < base
      · simp [Nat.toDigits_of_lt_base h, pushDigit?_digitChar hbase h]
      · have hle : base ≤ n := by omega
        have hfront := ih (n / base) (Nat.div_lt_self (by omega) hone)
        have hlast : n % base < base := Nat.mod_lt n (by omega)
        have hsplit : n / base * base + n % base = n := Nat.div_add_mod' n base
        simp [Nat.toDigits_of_base_le hone hle, hfront, pushDigit?_digitChar hbase hlast, hsplit]

theorem toNat?_toDigits (hone : 1 < base) (hbase : base ≤ 16) (n : Nat) :
    toNat? base (Nat.toDigits base n) = some n := by
  have hread := foldlM_pushDigit?_toDigits hone hbase n
  cases hdigits : Nat.toDigits base n with
  | nil => exact absurd hdigits Nat.toDigits_ne_nil
  | cons c cs =>
      rw [hdigits] at hread
      exact hread

theorem exists_digitChar_of_mem_toDigits (hone : 1 < base) {c : Char}
    (h : c ∈ Nat.toDigits base n) : ∃ d < base, c = d.digitChar := by
  induction n using Nat.strongRecOn with
  | ind n ih =>
      by_cases hlt : n < base
      · rw [Nat.toDigits_of_lt_base hlt, List.mem_singleton] at h
        exact ⟨n, hlt, h⟩
      · rw [Nat.toDigits_of_base_le hone (by omega), List.mem_append, List.mem_singleton] at h
        rcases h with hfront | hlast
        · exact ih (n / base) (Nat.div_lt_self (by omega) hone) hfront
        · exact ⟨n % base, Nat.mod_lt n (by omega), hlast⟩

theorem of_mem_toDigits {P : Char → Prop} (hdigit : ∀ d < 16, P d.digitChar) (hone : 1 < base)
    (hbase : base ≤ 16) {c : Char} (h : c ∈ Nat.toDigits base n) : P c := by
  obtain ⟨d, hd, rfl⟩ := exists_digitChar_of_mem_toDigits hone h
  exact hdigit d (by omega)

theorem toUnsigned?_toDigits (hone : 1 < base) (hbase : base ≤ 16) (n : Nat) :
    toUnsigned? base (Nat.toDigits base n) = some n := by
  have hread := toNat?_toDigits hone hbase n
  have hplus : ∀ c ∈ Nat.toDigits base n, c ≠ '+' := fun c =>
    of_mem_toDigits (P := (· ≠ '+')) (by decide) hone hbase
  cases hdigits : Nat.toDigits base n with
  | nil => exact absurd hdigits Nat.toDigits_ne_nil
  | cons c cs =>
      rw [hdigits] at hread hplus
      unfold toUnsigned?
      split
      · next heq => exact absurd (List.cons.inj heq).1 (hplus c List.mem_cons_self)
      · exact hread

theorem isDigit_of_mem_ofNat {c : Char} (h : c ∈ ofNat n) : c.isDigit = true :=
  Nat.isDigit_of_mem_toDigits (by decide) (by decide) h

theorem toInt?_ofNat (n : Nat) : toInt? 10 (ofNat n) = some (Int.ofNat n) := by
  have hread : toNat? 10 (ofNat n) = some n := toNat?_toDigits (by decide) (by decide) n
  unfold toInt?
  split
  · next heq =>
    have hdigit := isDigit_of_mem_ofNat (heq ▸ List.mem_cons_self)
    exact absurd hdigit (by decide)
  · next heq =>
    have hdigit := isDigit_of_mem_ofNat (heq ▸ List.mem_cons_self)
    exact absurd hdigit (by decide)
  · rw [hread, Option.map_some]

theorem toInt?_ofInt (n : Int) : toInt? 10 (ofInt n) = some n := by
  rw [ofInt]
  split
  · have hread : toNat? 10 (ofNat n.natAbs) = some n.natAbs :=
      toNat?_toDigits (by decide) (by decide) n.natAbs
    rw [toInt?, hread, Option.map_some, Option.some_inj, Int.ofNat_eq_natCast]
    omega
  · rw [toInt?_ofNat, Option.some_inj, Int.ofNat_eq_natCast]
    omega

theorem ofInt_inj {m n : Int} (h : ofInt m = ofInt n) : m = n := by
  have hread := toInt?_ofInt m
  rw [h, toInt?_ofInt] at hread
  exact (Option.some.inj hread).symm

theorem of_mem_ofInt {z : Int} {c : Char} (h : c ∈ ofInt z) : c.isDigit = true ∨ c = '-' := by
  rw [ofInt] at h
  split at h
  · rcases List.mem_cons.1 h with hsign | hdigit
    · exact .inr hsign
    · exact .inl (isDigit_of_mem_ofNat hdigit)
  · exact .inl (isDigit_of_mem_ofNat h)

theorem ofInt_ne_nil (z : Int) : ofInt z ≠ [] := by
  rw [ofInt]
  split
  · exact List.cons_ne_nil _ _
  · exact Nat.toDigits_ne_nil

end Reductions.Numeral
