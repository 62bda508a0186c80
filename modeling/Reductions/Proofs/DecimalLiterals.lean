import Mathlib.Algebra.Order.Ring.Rat
import Mathlib.Data.List.Basic
import Mathlib.Tactic.NormNum
import Reductions.Number.Scientific
import Reductions.Proofs.MarksText

/-!
# Decimal literals

Digits with a point among them, or a digit with an exponent. A literal denotes
one number, and it looks unlike a numeral and unlike a name.
-/

namespace Reductions

/-! ## The numbers of literals -/

def digitsValue (cs : List Char) : ℚ :=
  Nat.ofDigitChars 10 cs 0

def AllDigits (cs : List Char) : Prop :=
  ∀ c ∈ cs, c.isDigit = true

/-- The three forms of a decimal literal and the numbers that they denote. -/
inductive Denotes : List Char → ℚ → Prop where
  | fixed {front back : List Char} (hfront : front ≠ []) (hback : back ≠ [])
      (hdigits : AllDigits front) (hdigits' : AllDigits back) :
      Denotes (front ++ '.' :: back)
        (digitsValue (front ++ back) * 10 ^ (-(back.length : ℤ)))
  | whole {d : Char} (exponent : ℤ) (hd : d.isDigit = true) :
      Denotes (d :: 'e' :: Numeral.ofInt exponent) (digitsValue [d] * 10 ^ exponent)
  | pointed {d : Char} {back : List Char} (exponent : ℤ) (hd : d.isDigit = true)
      (hback : back ≠ []) (hdigits : AllDigits back) :
      Denotes (d :: '.' :: back ++ 'e' :: Numeral.ofInt exponent)
        (digitsValue (d :: back) * 10 ^ (exponent - back.length))

def fixedValue (cs : List Char) : ℚ :=
  match Text.split '.' cs with
  | [front, back] => digitsValue (front ++ back) * 10 ^ (-(back.length : ℤ))
  | _ => digitsValue cs

def literalValue (cs : List Char) : ℚ :=
  match Text.split 'e' cs with
  | [mantissa, exponent] =>
    fixedValue mantissa * 10 ^ ((Numeral.toInt? 10 exponent).getD 0)
  | _ => fixedValue cs

theorem AllDigits.not_mem {cs : List Char} (h : AllDigits cs) {c : Char}
    (hc : c.isDigit = false) : c ∉ cs := by
  intro hmem
  rw [h c hmem] at hc
  cases hc

theorem AllDigits.head {cs : List Char} (h : AllDigits cs) (hne : cs ≠ []) :
    ∃ d rest, cs = d :: rest ∧ d.isDigit = true := by
  obtain ⟨d, rest, rfl⟩ := List.exists_cons_of_ne_nil hne
  exact ⟨d, rest, rfl, h d List.mem_cons_self⟩

theorem AllDigits.append {as bs : List Char} (ha : AllDigits as) (hb : AllDigits bs) :
    AllDigits (as ++ bs) := by
  intro c hc
  exact (List.mem_append.1 hc).elim (ha c) (hb c)

theorem AllDigits.of_append {as bs : List Char} (h : AllDigits (as ++ bs)) :
    AllDigits as ∧ AllDigits bs :=
  ⟨fun c hc => h c (List.mem_append_left _ hc), fun c hc => h c (List.mem_append_right _ hc)⟩

theorem AllDigits.not_mem_point {front back : List Char} (hfront : AllDigits front)
    (hback : AllDigits back) {c : Char} (hc : c.isDigit = false) (hne : c ≠ '.') :
    c ∉ front ++ '.' :: back := by
  intro hmem
  rcases List.mem_append.1 hmem with h | h
  · exact hfront.not_mem hc h
  · exact (List.mem_cons.1 h).elim hne (hback.not_mem hc)

theorem AllDigits.replicate_zero (n : ℕ) : AllDigits (List.replicate n '0') := by
  intro c hc
  rw [List.eq_of_mem_replicate hc]
  rfl

theorem allDigits_ofNat (n : ℕ) : AllDigits (Numeral.ofNat n) :=
  fun _ => Numeral.isDigit_of_mem_ofNat

theorem not_mem_ofInt {c : Char} (hdigit : c.isDigit = false) (hsign : c ≠ '-') (n : ℤ) :
    c ∉ Numeral.ofInt n := by
  intro hmem
  rcases Numeral.of_mem_ofInt hmem with h | h
  · rw [hdigit] at h
    cases h
  · exact hsign h

theorem fixedValue_point {front back : List Char} (hfront : AllDigits front)
    (hback : AllDigits back) : fixedValue (front ++ '.' :: back) =
      digitsValue (front ++ back) * 10 ^ (-(back.length : ℤ)) := by
  rw [fixedValue, Text.split_append_cons (hfront.not_mem rfl),
    Text.split_of_not_mem (hback.not_mem rfl)]

theorem literalValue_exponent {mantissa : List Char} (h : 'e' ∉ mantissa) (exponent : ℤ) :
    literalValue (mantissa ++ 'e' :: Numeral.ofInt exponent) =
      fixedValue mantissa * 10 ^ exponent := by
  rw [literalValue, Text.split_append_cons h,
    Text.split_of_not_mem (not_mem_ofInt rfl (by decide) exponent)]
  simp only [Numeral.toInt?_ofInt, Option.getD_some]

theorem Denotes.literalValue_eq {cs : List Char} {q : ℚ} (h : Denotes cs q) :
    literalValue cs = q := by
  cases h with
  | @fixed front back hfront hback hdigits hdigits' =>
      have hplain : 'e' ∉ front ++ '.' :: back :=
        hdigits.not_mem_point hdigits' rfl (by decide)
      rw [literalValue, Text.split_of_not_mem hplain]
      exact fixedValue_point hdigits hdigits'
  | @whole d exponent hd =>
      have hdigit : AllDigits [d] := fun c hc => List.mem_singleton.1 hc ▸ hd
      have hvalue : fixedValue [d] = digitsValue [d] := by
        rw [fixedValue, Text.split_of_not_mem (hdigit.not_mem rfl)]
      rw [← hvalue]
      exact literalValue_exponent (hdigit.not_mem rfl) exponent
  | @pointed d back exponent hd hback hdigits =>
      have hdigit : AllDigits [d] := fun c hc => List.mem_singleton.1 hc ▸ hd
      have hplain : 'e' ∉ [d] ++ '.' :: back :=
        hdigit.not_mem_point hdigits rfl (by decide)
      calc literalValue (d :: '.' :: back ++ 'e' :: Numeral.ofInt exponent)
          = fixedValue ([d] ++ '.' :: back) * 10 ^ exponent :=
            literalValue_exponent hplain exponent
        _ = digitsValue (d :: back) * 10 ^ (-(back.length : ℤ)) * 10 ^ exponent := by
            rw [fixedValue_point hdigit hdigits]
            rfl
        _ = digitsValue (d :: back) * 10 ^ (exponent - back.length) := by
            rw [mul_assoc, ← zpow_add₀ (by norm_num), neg_add_eq_sub]

theorem Denotes.head {cs : List Char} {q : ℚ} (h : Denotes cs q) :
    ∃ d rest, cs = d :: rest ∧ d.isDigit = true := by
  cases h with
  | @fixed front back hfront hback hdigits hdigits' =>
      obtain ⟨d, rest, rfl, hd⟩ := hdigits.head hfront
      exact ⟨d, rest ++ '.' :: back, rfl, hd⟩
  | whole exponent hd => exact ⟨_, _, rfl, hd⟩
  | pointed exponent hd hback hdigits => exact ⟨_, _, rfl, hd⟩

/-! ## The look of a number -/

def DigitAfterPoint (cs : List Char) : Prop :=
  ∀ front back, cs = front ++ '.' :: back → ∃ d rest, back = d :: rest ∧ d.isDigit = true

/-- What tells the text of a double from the texts of other values. -/
structure NumberText (cs : List Char) : Prop where
  plain : ∀ c ∈ cs, c.isAlphanum = true ∨ c = '-' ∨ c = '.'
  inside : DigitAfterPoint cs
  marked : ∃ c ∈ cs, c.isDigit = false ∧ c ≠ '-'
  head : cs = FloatStyle.dump.infinity.toList ∨
    ∃ c rest, cs = c :: rest ∧ (c.isDigit = true ∨ c = '-')

theorem digitAfterPoint_of_not_mem {cs : List Char} (h : '.' ∉ cs) : DigitAfterPoint cs := by
  rintro front back rfl
  exact absurd (List.mem_append_right front List.mem_cons_self) h

theorem digitAfterPoint_point {front back : List Char} (hfront : '.' ∉ front)
    (hback : '.' ∉ back) (hdigit : ∃ d rest, back = d :: rest ∧ d.isDigit = true) :
    DigitAfterPoint (front ++ '.' :: back) := by
  intro front' back' h
  obtain ⟨_, _, rfl⟩ := (List.append_cons_inj_of_notMem hfront hback).1 h
  exact hdigit

theorem Denotes.of_mem {cs : List Char} {q : ℚ} (h : Denotes cs q) {c : Char} (hc : c ∈ cs) :
    c.isDigit = true ∨ c = '-' ∨ c = '.' ∨ c = 'e' := by
  cases h with
  | @fixed front back hfront hback hdigits hdigits' =>
      rcases List.mem_append.1 hc with hmem | hmem
      · exact .inl (hdigits c hmem)
      · rcases List.mem_cons.1 hmem with hpoint | hmem
        · exact .inr (.inr (.inl hpoint))
        · exact .inl (hdigits' c hmem)
  | whole exponent hd =>
      simp only [List.mem_cons] at hc
      rcases hc with rfl | hmark | hmem
      · exact .inl hd
      · exact .inr (.inr (.inr hmark))
      · exact (Numeral.of_mem_ofInt hmem).imp_right .inl
  | pointed exponent hd hback hdigits =>
      simp only [List.cons_append, List.mem_cons, List.mem_append] at hc
      rcases hc with rfl | hpoint | hmem | hmark | hmem
      · exact .inl hd
      · exact .inr (.inr (.inl hpoint))
      · exact .inl (hdigits c hmem)
      · exact .inr (.inr (.inr hmark))
      · exact (Numeral.of_mem_ofInt hmem).imp_right .inl

theorem Denotes.digitAfterPoint {cs : List Char} {q : ℚ} (h : Denotes cs q) :
    DigitAfterPoint cs := by
  cases h with
  | fixed hfront hback hdigits hdigits' =>
      apply digitAfterPoint_point (hdigits.not_mem rfl) (hdigits'.not_mem rfl)
      exact hdigits'.head hback
  | @whole d exponent hd =>
      apply digitAfterPoint_of_not_mem
      simp only [List.mem_cons, not_or]
      refine ⟨?_, by decide, not_mem_ofInt rfl (by decide) exponent⟩
      rintro rfl
      cases hd
  | @pointed d back exponent hd hback hdigits =>
      have hfront : AllDigits [d] := fun c hc => List.mem_singleton.1 hc ▸ hd
      have hexponent : '.' ∉ back ++ 'e' :: Numeral.ofInt exponent := by
        simp only [List.mem_append, List.mem_cons, not_or]
        exact ⟨hdigits.not_mem rfl, by decide, not_mem_ofInt rfl (by decide) exponent⟩
      apply digitAfterPoint_point (hfront.not_mem rfl) hexponent
      obtain ⟨c, rest, rfl, hc⟩ := hdigits.head hback
      exact ⟨c, rest ++ 'e' :: Numeral.ofInt exponent, rfl, hc⟩

theorem Denotes.numberText {cs : List Char} {q : ℚ} (h : Denotes cs q) : NumberText cs where
  plain c hc := by
    rcases h.of_mem hc with hdigit | hsign | hpoint | rfl
    · rw [Char.isAlphanum, hdigit, Bool.or_true]
      exact .inl rfl
    · exact .inr (.inl hsign)
    · exact .inr (.inr hpoint)
    · exact .inl rfl
  inside := h.digitAfterPoint
  marked := by
    cases h with
    | fixed => exact ⟨'.', by simp, by decide⟩
    | whole => exact ⟨'e', by simp, by decide⟩
    | pointed => exact ⟨'e', by simp, by decide⟩
  head := by
    obtain ⟨d, rest, hhead, hd⟩ := h.head
    exact .inr ⟨d, rest, hhead, .inl hd⟩

theorem NumberText.neg {cs : List Char} (h : NumberText cs) : NumberText ('-' :: cs) where
  plain c hc := by
    rcases List.mem_cons.1 hc with rfl | hmem
    · exact .inr (.inl rfl)
    · exact h.plain c hmem
  inside front back hsplit := by
    rcases List.cons_eq_append_iff.1 hsplit with ⟨_, hpoint⟩ | ⟨front', _, htail⟩
    · exact absurd (List.cons.inj hpoint).1 (by decide)
    · exact h.inside front' back htail
  marked := by
    obtain ⟨c, hc, hmark⟩ := h.marked
    exact ⟨c, List.mem_cons_of_mem _ hc, hmark⟩
  head := .inr ⟨'-', cs, rfl, .inr rfl⟩

theorem numberText_infinity : NumberText FloatStyle.dump.infinity.toList where
  plain c hc := by
    have hletters : FloatStyle.dump.infinity.toList.all Char.isAlphanum = true := by decide
    exact .inl (List.all_eq_true.1 hletters c hc)
  inside := digitAfterPoint_of_not_mem (by decide)
  marked := ⟨'i', by decide, by decide⟩
  head := .inl rfl

end Reductions
