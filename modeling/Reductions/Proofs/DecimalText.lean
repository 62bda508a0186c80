import Mathlib.Data.List.TakeWhile
import Reductions.Proofs.DecimalLiterals
import Reductions.Proofs.ShortestDecimals

/-!
# The texts of doubles

The text of a double denotes its shortest decimal exactly: the zeros that fill
places and those that are dropped change nothing. A shortest decimal rounds to
its double alone, so no two doubles share a text.
-/

namespace Reductions

/-! ## Digits and zeros -/

theorem digitsValue_append_zeros (cs : List Char) (n : ℕ) :
    digitsValue (cs ++ List.replicate n '0') = digitsValue cs * 10 ^ n := by
  rw [digitsValue, digitsValue, Nat.ofDigitChars_append, Nat.ofDigitChars_replicate_zero,
    Nat.cast_mul, Nat.cast_pow, mul_comm, Nat.cast_ofNat]

theorem digitsValue_zeros_append (n : ℕ) (cs : List Char) :
    digitsValue (List.replicate n '0' ++ cs) = digitsValue cs := by
  rw [digitsValue, digitsValue, Nat.ofDigitChars_append, Nat.ofDigitChars_replicate_zero,
    Nat.mul_zero]

theorem digitsValue_ofNat (n : ℕ) : digitsValue (Numeral.ofNat n) = n := by
  rw [digitsValue, Numeral.ofNat, Nat.ofDigitChars_ten_toDigits]

theorem exists_zeros (cs : List Char) :
    ∃ n, cs = (cs.reverse.dropWhile (· == '0')).reverse ++ List.replicate n '0' := by
  refine ⟨(cs.reverse.takeWhile (· == '0')).length, ?_⟩
  have hzeros : cs.reverse.takeWhile (· == '0') =
      List.replicate (cs.reverse.takeWhile (· == '0')).length '0' := by
    rw [List.eq_replicate_iff]
    refine ⟨rfl, fun c hc => ?_⟩
    exact beq_iff_eq.1 (List.mem_takeWhile_imp (p := (· == '0')) hc)
  have hsplit := List.takeWhile_append_dropWhile (p := (· == '0')) (l := cs.reverse)
  rw [hzeros] at hsplit
  have hreverse := congrArg List.reverse hsplit
  rw [List.reverse_append, List.reverse_reverse, List.reverse_replicate] at hreverse
  exact hreverse.symm

namespace FloatStyle

theorem denotes_positional {digits : List Char} (hne : digits ≠ []) (h : AllDigits digits)
    (whole : ℤ) : Denotes (positional digits whole)
      (digitsValue digits * 10 ^ (whole - digits.length)) := by
  rw [positional]
  split
  · next hwhole =>
    have hzeros := AllDigits.replicate_zero (-whole).toNat
    have hback : List.replicate (-whole).toNat '0' ++ digits ≠ [] :=
      List.append_ne_nil_of_right_ne_nil _ hne
    have hfixed := Denotes.fixed (List.cons_ne_nil '0' []) hback
      (AllDigits.replicate_zero 1) (hzeros.append h)
    have hvalue : digitsValue (['0'] ++ (List.replicate (-whole).toNat '0' ++ digits)) =
        digitsValue digits := by
      rw [← List.append_assoc]
      exact digitsValue_zeros_append ((-whole).toNat + 1) digits
    have hexponent : -((List.replicate (-whole).toNat '0' ++ digits).length : ℤ) =
        whole - digits.length := by
      rw [List.length_append, List.length_replicate]
      omega
    rw [hvalue, hexponent] at hfixed
    exact hfixed
  · next hwhole =>
    rcases Nat.lt_or_ge whole.toNat digits.length with hlt | hge
    · -- The point stands between two of the digits.
      have hfront : digits.take whole.toNat ≠ [] := by
        rw [← List.length_pos_iff, List.length_take]
        omega
      have hback : digits.drop whole.toNat ≠ [] := by
        rw [← List.length_pos_iff, List.length_drop]
        omega
      have hsplit := List.take_append_drop whole.toNat digits
      have hdigits := AllDigits.of_append (hsplit.symm ▸ h)
      have hfixed := Denotes.fixed hfront hback hdigits.1 hdigits.2
      have hexponent : -((digits.drop whole.toNat).length : ℤ) = whole - digits.length := by
        rw [List.length_drop]
        omega
      have hnone : whole.toNat - digits.length = 0 := by omega
      rw [hsplit, hexponent] at hfixed
      simpa [hnone, hback] using hfixed
    · -- All digits stand before the point, with zeros behind them.
      have hback : digits.drop whole.toNat = [] := List.drop_eq_nil_iff.2 hge
      have hfront : digits.take whole.toNat = digits := List.take_of_length_le hge
      have hfixed := Denotes.fixed (List.append_ne_nil_of_left_ne_nil hne _)
        (List.cons_ne_nil '0' [])
        (h.append (AllDigits.replicate_zero (whole.toNat - digits.length)))
        (AllDigits.replicate_zero 1)
      have hvalue : digitsValue (digits ++ List.replicate (whole.toNat - digits.length) '0' ++
          ['0']) * 10 ^ (-(1 : ℤ)) = digitsValue digits * 10 ^ (whole - digits.length) := by
        have hexponent : whole - digits.length = (whole.toNat - digits.length : ℕ) := by omega
        rw [List.append_assoc, ← List.replicate_succ', digitsValue_append_zeros, hexponent,
          zpow_natCast, zpow_neg_one, pow_succ, ← mul_assoc, mul_inv_cancel_right₀ (by norm_num)]
      rw [← hvalue]
      simpa [hback, hfront] using hfixed

theorem denotes_exponential {digits : List Char} (hne : digits ≠ []) (h : AllDigits digits)
    (exponent : ℤ) : Denotes (dump.exponential digits exponent)
      (digitsValue digits * 10 ^ (exponent + 1 - digits.length)) := by
  match digits, hne, h with
  | [d], _, h =>
      have hwhole := Denotes.whole exponent (h d List.mem_cons_self)
      have hexponent : exponent = exponent + 1 - ([d].length : ℕ) := by simp
      rwa [← hexponent]
  | d :: c :: rest, _, h =>
      have hpointed := Denotes.pointed exponent (h d List.mem_cons_self) (List.cons_ne_nil c rest)
        (fun c hc => h c (List.mem_cons_of_mem d hc))
      have hexponent : exponent - ((c :: rest).length : ℤ) =
          exponent + 1 - (d :: c :: rest).length := by
        simp only [List.length_cons]
        omega
      rw [hexponent] at hpointed
      exact hpointed

variable {x y : Binary64}

theorem denotes_magnitude (h : x.magnitude ≠ 0) :
    Denotes (dump.magnitude x) (Shortest.decimal x).value := by
  have hdigits := digitsValue_ofNat (Shortest.decimal x).digits
  have hpos := Shortest.decimal_value_pos h
  -- The zeros at the end go over into the exponent.
  obtain ⟨n, hzeros⟩ := exists_zeros (Numeral.ofNat (Shortest.decimal x).digits)
  rw [magnitude, if_neg (by simpa [Binary64.isZero] using h)]
  simp only
  generalize hstripped : ((Numeral.ofNat (Shortest.decimal x).digits).reverse.dropWhile
    (· == '0')).reverse = stripped at hzeros ⊢
  have hlength := congrArg List.length hzeros
  rw [List.length_append, List.length_replicate] at hlength
  have hall : AllDigits stripped := (AllDigits.of_append (hzeros ▸ allDigits_ofNat _)).1
  rw [hzeros, digitsValue_append_zeros] at hdigits
  have hne : stripped ≠ [] := by
    rintro rfl
    have hzero : digitsValue [] = 0 := Nat.cast_zero
    rw [Shortest.Decimal.value, ← hdigits, hzero, zero_mul, zero_mul] at hpos
    exact lt_irrefl _ hpos
  have hvalue : digitsValue stripped * 10 ^ ((Shortest.decimal x).exponent +
      (Numeral.ofNat (Shortest.decimal x).digits).length - 1 + 1 - stripped.length) =
        (Shortest.decimal x).value := by
    have hexponent : (Shortest.decimal x).exponent +
        ((Numeral.ofNat (Shortest.decimal x).digits).length : ℤ) - 1 + 1 - stripped.length =
          n + (Shortest.decimal x).exponent := by
      omega
    rw [hexponent, Shortest.Decimal.value, ← hdigits, zpow_add₀ (by norm_num), zpow_natCast,
      ← mul_assoc]
  rw [← hvalue]
  split
  · exact denotes_positional hne hall _
  · exact denotes_exponential hne hall _

theorem denotes_magnitude_zero (h : x.magnitude = 0) : Denotes (dump.magnitude x) 0 := by
  have hzero := AllDigits.replicate_zero 1
  have hfixed := Denotes.fixed (List.cons_ne_nil '0' []) (List.cons_ne_nil '0' []) hzero hzero
  have hvalue : digitsValue (['0'] ++ ['0']) = 0 := Nat.cast_zero
  rw [hvalue, zero_mul] at hfixed
  rw [magnitude, if_pos (by simpa [Binary64.isZero] using h)]
  exact hfixed

theorem exists_denotes_magnitude (x : Binary64) : ∃ q, Denotes (dump.magnitude x) q := by
  by_cases h : x.magnitude = 0
  · exact ⟨0, denotes_magnitude_zero h⟩
  · exact ⟨_, denotes_magnitude h⟩

theorem magnitude_inj (h : dump.magnitude x = dump.magnitude y) :
    x.magnitude = y.magnitude := by
  -- Zero is told from the others by its value, and they by the interval that theirs lies in.
  by_cases hx : x.magnitude = 0
  · by_cases hy : y.magnitude = 0
    · rw [hx, hy]
    · have hzero := (denotes_magnitude_zero hx).literalValue_eq
      rw [h, (denotes_magnitude hy).literalValue_eq] at hzero
      exact absurd hzero (Shortest.decimal_value_pos hy).ne'
  · by_cases hy : y.magnitude = 0
    · have hzero := (denotes_magnitude_zero hy).literalValue_eq
      rw [← h, (denotes_magnitude hx).literalValue_eq] at hzero
      exact absurd hzero (Shortest.decimal_value_pos hx).ne'
    · have hvalue := (denotes_magnitude hx).literalValue_eq
      rw [h, (denotes_magnitude hy).literalValue_eq] at hvalue
      exact Shortest.magnitude_eq_of_admits (Shortest.admits_decimal hx)
        (hvalue ▸ Shortest.admits_decimal hy)

/-! ## Signs and infinities -/

def unsigned (x : Binary64) : List Char :=
  if x.isInfinite then dump.infinity.toList else dump.magnitude x

theorem write_eq (h : x.isNaN = false) :
    dump.write x = (if x.isNegative then ['-'] else []) ++ unsigned x := by
  rw [write, h, unsigned]
  cases x.isNegative <;> rfl

theorem magnitude_of_isInfinite (h : x.isInfinite = true) :
    x.magnitude = Binary64.specialField * Binary64.leadingBit := by
  rw [Binary64.isInfinite, Bool.and_eq_true, beq_iff_eq, beq_iff_eq, Binary64.exponentField,
    Binary64.fraction] at h
  have hdiv := Nat.div_add_mod x.magnitude Binary64.leadingBit
  rw [h.1, h.2, Nat.add_zero, Nat.mul_comm] at hdiv
  exact hdiv.symm

theorem unsigned_head (x : Binary64) :
    (x.isInfinite = true ∧ unsigned x = ['i', 'n', 'f']) ∨
      x.isInfinite = false ∧ ∃ d rest, unsigned x = d :: rest ∧ d.isDigit = true := by
  rw [unsigned]
  split
  · next hinf => exact .inl ⟨hinf, rfl⟩
  · next hfinite =>
    obtain ⟨q, hq⟩ := exists_denotes_magnitude x
    exact .inr ⟨Bool.eq_false_iff.2 hfinite, hq.head⟩

theorem unsigned_inj (h : unsigned x = unsigned y) : x.magnitude = y.magnitude := by
  rcases unsigned_head x with ⟨hx, hinf⟩ | ⟨hx, d, rest, hxhead, hd⟩
  · rcases unsigned_head y with ⟨hy, _⟩ | ⟨_, d, rest, hyhead, hd⟩
    · rw [magnitude_of_isInfinite hx, magnitude_of_isInfinite hy]
    · rw [hinf, hyhead] at h
      rw [← (List.cons.inj h).1] at hd
      exact absurd hd (by decide)
  · rcases unsigned_head y with ⟨_, hinf⟩ | ⟨hy, _⟩
    · rw [hinf, hxhead] at h
      rw [(List.cons.inj h).1] at hd
      exact absurd hd (by decide)
    · rw [unsigned, unsigned, hx, hy] at h
      exact magnitude_inj h

theorem unsigned_head_ne (x : Binary64) (rest : List Char) : unsigned x ≠ '-' :: rest := by
  intro h
  rcases unsigned_head x with ⟨_, hinf⟩ | ⟨_, d, tail, hhead, hd⟩
  · rw [hinf] at h
    exact absurd (List.cons.inj h).1 (by decide)
  · rw [hhead] at h
    rw [(List.cons.inj h).1] at hd
    exact absurd hd (by decide)

theorem toNat_bits (x : Binary64) :
    x.bits.toNat = (if x.isNegative then Binary64.signBit else 0) + x.magnitude := by
  have hlt : x.bits.toNat < 2 * Binary64.signBit := x.bits.toNat_lt_size
  rw [Binary64.magnitude]
  cases hneg : x.isNegative with
  | true =>
      have hle : Binary64.signBit ≤ x.bits.toNat := of_decide_eq_true hneg
      rw [if_pos rfl, Nat.mod_eq_sub_mod hle, Nat.mod_eq_of_lt (by omega)]
      omega
  | false =>
      have hgt : ¬ Binary64.signBit ≤ x.bits.toNat := of_decide_eq_false hneg
      rw [if_neg Bool.false_ne_true, Nat.mod_eq_of_lt (Nat.lt_of_not_le hgt), Nat.zero_add]

/-- No two doubles other than NaN have the same text. -/
theorem write_inj (hx : x.isNaN = false) (hy : y.isNaN = false)
    (h : dump.write x = dump.write y) : x = y := by
  rw [write_eq hx, write_eq hy] at h
  have hparts : x.isNegative = y.isNegative ∧ unsigned x = unsigned y := by
    cases hnegx : x.isNegative <;> cases hnegy : y.isNegative <;> rw [hnegx, hnegy] at h
    · exact ⟨rfl, h⟩
    · exact absurd h (unsigned_head_ne x _)
    · exact absurd h.symm (unsigned_head_ne y _)
    · exact ⟨rfl, (List.cons.inj h).2⟩
  have hbits : x.bits.toNat = y.bits.toNat := by
    rw [toNat_bits, toNat_bits, hparts.1, unsigned_inj hparts.2]
  cases x
  cases y
  exact congrArg Binary64.mk (UInt64.toNat_inj.1 hbits)

theorem numberText_unsigned (x : Binary64) : NumberText (unsigned x) := by
  rw [unsigned]
  split
  · exact numberText_infinity
  · obtain ⟨q, hq⟩ := exists_denotes_magnitude x
    exact hq.numberText

theorem numberText_write (h : x.isNaN = false) : NumberText (dump.write x) := by
  rw [write_eq h]
  cases x.isNegative with
  | false => exact numberText_unsigned x
  | true => exact (numberText_unsigned x).neg

end FloatStyle

end Reductions
