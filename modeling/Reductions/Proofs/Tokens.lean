import Reductions.Expr.Printer
import Reductions.Proofs.DecimalText

/-!
# Tokens

Names, numerals, decimals and truth values as they stand in a dump. The first
characters of a text decide how far a token goes, even where a range begins with
two points right behind it, and the look of a token says which of the four it is.
-/

namespace Reductions

namespace Text

/-! ## Where a token ends -/

/-- A letter or an underscore. Every character outside ASCII may be a letter. -/
def startsName (c : Char) : Bool :=
  c.isAlpha || c == '_' || 128 ≤ c.toNat

def continuesName (c : Char) : Bool :=
  startsName c || c.isDigit

def reserved : List String :=
  ["for", "true", "false", "inf", "NaN"]

def isName (name : String) : Bool :=
  name.toList.head?.any startsName && name.toList.all continuesName && !reserved.contains name

def inToken (c : Char) : Bool :=
  continuesName c || c == '-' || c == '.'

/-- The points in a token are those of decimals. -/
structure IsToken (cs : List Char) : Prop where
  plain : ∀ c ∈ cs, inToken c = true
  inside : DigitAfterPoint cs

/-- A token in front of the text does not go on in it, though two points may follow. -/
def EndsToken (rest : List Char) : Prop :=
  ∀ c tail, rest = c :: tail → inToken c = true → c = '.' ∧ tail.head? = some '.'

theorem endsToken_cons {c : Char} (h : inToken c = false) (tail : List Char) :
    EndsToken (c :: tail) := by
  intro d tail' heq hd
  obtain ⟨rfl, _⟩ := List.cons.inj heq
  rw [h] at hd
  cases hd

theorem endsToken_points (tail : List Char) : EndsToken ('.' :: '.' :: tail) := by
  intro c tail' heq _
  obtain ⟨rfl, rfl⟩ := List.cons.inj heq
  exact ⟨rfl, rfl⟩

theorem EndsToken.eq_nil {token more rest : List Char} (hrest : EndsToken (more ++ rest))
    (h : IsToken (token ++ more)) : more = [] := by
  cases more with
  | nil => rfl
  | cons c more =>
      -- The longer token would have a second point or its end behind a point.
      have hc := h.plain c (List.mem_append_right _ List.mem_cons_self)
      obtain ⟨rfl, hsecond⟩ := hrest c (more ++ rest) rfl hc
      obtain ⟨d, tail, rfl, hd⟩ := h.inside token more rfl
      obtain rfl : d = '.' := Option.some.inj hsecond
      cases hd

theorem IsToken.unique {s t rs rt : List Char} (hs : IsToken s) (ht : IsToken t)
    (hrs : EndsToken rs) (hrt : EndsToken rt) (h : s ++ rs = t ++ rt) : s = t ∧ rs = rt := by
  rcases List.append_eq_append_iff.1 h with ⟨more, rfl, rfl⟩ | ⟨more, rfl, rfl⟩
  · obtain rfl := hrs.eq_nil ht
    exact ⟨(List.append_nil s).symm, rfl⟩
  · obtain rfl := hrt.eq_nil hs
    exact ⟨List.append_nil t, rfl⟩

/-! ## Names -/

section Names

variable {name : String} (h : isName name = true)

include h

theorem head_of_isName :
    ∃ c rest, name.toList = c :: rest ∧ startsName c = true := by
  rw [isName, Bool.and_eq_true, Bool.and_eq_true, Option.any_eq_true] at h
  obtain ⟨⟨⟨c, hhead, hc⟩, _⟩, _⟩ := h
  obtain ⟨rest, hrest⟩ := List.head?_eq_some_iff.1 hhead
  exact ⟨c, rest, hrest, hc⟩

theorem isToken_of_isName : IsToken name.toList := by
  rw [isName, Bool.and_eq_true, Bool.and_eq_true, List.all_eq_true] at h
  have hplain := h.1.2
  constructor
  · intro c hc
    rw [inToken, hplain c hc]
    rfl
  · apply digitAfterPoint_of_not_mem
    intro hpoint
    exact absurd (hplain '.' hpoint) (by decide)

theorem not_mem_reserved : name ∉ reserved := by
  rw [isName, Bool.and_eq_true, Bool.not_eq_true', List.contains_eq_mem] at h
  exact of_decide_eq_false h.2

end Names

theorem isToken_ofInt (n : ℤ) : IsToken (Numeral.ofInt n) := by
  constructor
  · intro c hc
    rcases Numeral.of_mem_ofInt hc with hdigit | rfl
    · rw [inToken, continuesName, hdigit, Bool.or_true]
      rfl
    · rfl
  · exact digitAfterPoint_of_not_mem (not_mem_ofInt rfl (by decide) n)

theorem isToken_numberText {cs : List Char} (h : NumberText cs) : IsToken cs := by
  refine ⟨fun c hc => ?_, h.inside⟩
  rcases h.plain c hc with halnum | rfl | rfl
  · rw [Char.isAlphanum] at halnum
    rw [inToken, continuesName, startsName]
    rcases Bool.or_eq_true_iff.1 halnum with halpha | hdigit
    · rw [halpha]
      rfl
    · rw [hdigit, Bool.or_true]
      rfl
  · rfl
  · rfl

/-! ## Sorts of tokens -/

inductive TokenSort where
  | truth
  | integer
  | number
  | name
deriving DecidableEq

def startsNumber (c : Char) : Bool :=
  c.isDigit || c == '-'

def sortOf (cs : List Char) : TokenSort :=
  if cs = "true".toList ∨ cs = "false".toList then .truth
  else if cs.all startsNumber then .integer
  else if cs = "inf".toList ∨ cs.head?.any startsNumber then .number
  else .name

theorem toNat_of_isDigit {c : Char} (h : c.isDigit = true) : c.toNat ≤ '9'.toNat := by
  obtain ⟨_, hle⟩ := Bool.and_eq_true_iff.1 h
  exact UInt32.le_iff_toNat_le.1 (of_decide_eq_true hle)

theorem toNat_of_isAlpha {c : Char} (h : c.isAlpha = true) : 'A'.toNat ≤ c.toNat := by
  rcases Bool.or_eq_true_iff.1 h with hupper | hlower
  · obtain ⟨hle, _⟩ := of_decide_eq_true hupper
    exact UInt32.le_iff_toNat_le.1 hle
  · obtain ⟨hle, _⟩ := Bool.and_eq_true_iff.1 hlower
    have hle' : 'a'.toNat ≤ c.toNat := UInt32.le_iff_toNat_le.1 (of_decide_eq_true hle)
    exact Nat.le_trans (by decide) hle'

theorem isDigit_eq_false {c : Char} (h : startsName c = true) : c.isDigit = false := by
  rw [Bool.eq_false_iff]
  intro hdigit
  have hle : c.toNat ≤ 57 := toNat_of_isDigit hdigit
  rw [startsName, Bool.or_eq_true, Bool.or_eq_true, beq_iff_eq, decide_eq_true_eq] at h
  rcases h with (halpha | rfl) | hbeyond
  · have hge : 65 ≤ c.toNat := toNat_of_isAlpha halpha
    omega
  · exact absurd hdigit (by decide)
  · omega

theorem startsNumber_eq_false {c : Char} (h : startsName c = true) : startsNumber c = false := by
  rw [startsNumber, isDigit_eq_false h, Bool.false_or, beq_eq_false_iff_ne]
  rintro rfl
  exact absurd h (by decide)

theorem sortOf_bool (b : Bool) : sortOf (toString b).toList = .truth := by
  cases b <;> rfl

theorem sortOf_ofInt (n : ℤ) : sortOf (Numeral.ofInt n) = .integer := by
  have hall : (Numeral.ofInt n).all startsNumber = true := by
    rw [List.all_eq_true]
    intro c hc
    rw [startsNumber, Bool.or_eq_true, beq_iff_eq]
    exact Numeral.of_mem_ofInt hc
  have htruth : ¬ (Numeral.ofInt n = "true".toList ∨ Numeral.ofInt n = "false".toList) := by
    rintro (heq | heq) <;> rw [heq] at hall <;> exact absurd hall (by decide)
  rw [sortOf, if_neg htruth, if_pos hall]

theorem sortOf_numberText {cs : List Char} (h : NumberText cs) : sortOf cs = .number := by
  obtain ⟨c, hc, hdigit, hsign⟩ := h.marked
  have hall : ¬ cs.all startsNumber = true := by
    rw [List.all_eq_true]
    intro hall
    have hstart := hall c hc
    rw [startsNumber, hdigit, Bool.false_or, beq_iff_eq] at hstart
    exact hsign hstart
  rcases h.head with rfl | ⟨d, rest, rfl, hd⟩
  · rfl
  · have hstart : startsNumber d = true := by
      rw [startsNumber, Bool.or_eq_true, beq_iff_eq]
      exact hd
    have htruth : ¬ (d :: rest = "true".toList ∨ d :: rest = "false".toList) := by
      rintro (heq | heq) <;> rw [(List.cons.inj heq).1] at hstart <;>
        exact absurd hstart (by decide)
    rw [sortOf, if_neg htruth, if_neg hall, if_pos (.inr hstart)]

theorem sortOf_name {name : String} (h : isName name = true) : sortOf name.toList = .name := by
  obtain ⟨c, rest, hhead, hc⟩ := head_of_isName h
  have hreserved := not_mem_reserved h
  have hne (word : String) (hmem : word ∈ reserved) : name.toList ≠ word.toList := by
    intro heq
    rw [String.toList_inj.1 heq] at hreserved
    exact hreserved hmem
  have hstart := startsNumber_eq_false hc
  rw [sortOf, if_neg, if_neg, if_neg]
  · rintro (heq | hnumber)
    · exact hne "inf" (by decide) heq
    · rw [hhead, List.head?_cons, Option.any_some, hstart] at hnumber
      cases hnumber
  · rw [hhead, List.all_cons, hstart, Bool.false_and]
    exact Bool.false_ne_true
  · rintro (heq | heq)
    · exact hne "true" (by decide) heq
    · exact hne "false" (by decide) heq

end Text

namespace Expr

/-! ## Atoms -/

/-- The values whose text is one token. -/
inductive IsAtom : Expr → Prop where
  | int (n : Int64) : IsAtom (.int n)
  | float {x : Binary64} (h : x.isNaN = false) : IsAtom (.float x)
  | bool (b : Bool) : IsAtom (.bool b)
  | var {name : String} (h : Text.isName name = true) : IsAtom (.var name)

theorem IsAtom.isToken {e : Expr} (h : IsAtom e) : Text.IsToken e.writeValue := by
  cases h with
  | int n => exact Text.isToken_ofInt _
  | float h => exact Text.isToken_numberText (FloatStyle.numberText_write h)
  | bool b =>
      have hplain : (toString b).toList.all Text.inToken = true := by
        cases b <;> decide
      refine ⟨List.all_eq_true.1 hplain, digitAfterPoint_of_not_mem ?_⟩
      cases b <;> decide
  | var h => exact Text.isToken_of_isName h

theorem IsAtom.writeValue_ne_nil {e : Expr} (h : IsAtom e) : e.writeValue ≠ [] := by
  cases h with
  | int n => exact Numeral.ofInt_ne_nil _
  | float h =>
      obtain ⟨c, hc, _⟩ := (FloatStyle.numberText_write h).marked
      exact List.ne_nil_of_mem hc
  | bool b => cases b <;> decide
  | var h =>
      obtain ⟨c, rest, hhead, _⟩ := Text.head_of_isName h
      rw [writeValue, hhead]
      exact List.cons_ne_nil c rest

def atomSort : Expr → Text.TokenSort
  | int _ => .integer
  | float _ => .number
  | bool _ => .truth
  | _ => .name

theorem IsAtom.sortOf_writeValue {e : Expr} (h : IsAtom e) :
    Text.sortOf e.writeValue = e.atomSort := by
  cases h with
  | int n => exact Text.sortOf_ofInt _
  | float h => exact Text.sortOf_numberText (FloatStyle.numberText_write h)
  | bool b => exact Text.sortOf_bool b
  | var h => exact Text.sortOf_name h

theorem IsAtom.eq_of_writeValue_eq {e e' : Expr} (h : IsAtom e) (h' : IsAtom e')
    (heq : e.writeValue = e'.writeValue) : e = e' := by
  have hsort : e.atomSort = e'.atomSort := by
    rw [← h.sortOf_writeValue, ← h'.sortOf_writeValue, heq]
  cases h with
  | int n =>
      cases h' with
      | int n' => exact congrArg Expr.int (Int64.toInt_inj.1 (Numeral.ofInt_inj heq))
      | _ => cases hsort
  | float hx =>
      cases h' with
      | float hx' => exact congrArg Expr.float (FloatStyle.write_inj hx hx' heq)
      | _ => cases hsort
  | bool b =>
      cases h' with
      | bool b' =>
          have hinj : ∀ c c' : Bool, toString c = toString c' → c = c' := by decide
          exact congrArg Expr.bool (hinj b b' (String.toList_inj.1 heq))
      | _ => cases hsort
  | var hname =>
      cases h' with
      | var hname' => exact congrArg Expr.var (String.toList_inj.1 heq)
      | _ => cases hsort

end Expr

end Reductions
