import Mathlib.Algebra.BigOperators.Group.List.Basic
import Mathlib.Algebra.Order.Ring.Int
import Reductions.Proofs.Reduction

/-!
# Integer element types

An integer type holds the integers of an interval. A value that is stored in a
tensor of the type is truncated to the width of the type. Sums and products may
be truncated after every step or once at the end. An extreme is not truncated
at all when the fold starts inside the type, but it starts from a truncated
constant, which is the far end of the type for some of the types only.
-/

namespace Reductions

inductive IntegerType where
  | int8
  | int16
  | int32
  | int64
  | uint8
deriving DecidableEq, Repr

namespace IntegerType

def element : IntegerType → ElementType
  | int8 => .int8
  | int16 => .int16
  | int32 => .int32
  | int64 => .int64
  | uint8 => .uint8

def width : IntegerType → Nat
  | int8 | uint8 => 8
  | int16 => 16
  | int32 => 32
  | int64 => 64

def isSigned : IntegerType → Bool
  | uint8 => false
  | _ => true

def read (d : IntegerType) (w : BitVec d.width) : Int :=
  if d.isSigned then w.toInt else w.toNat

/-- Conversion to the type: the low bits of the integer in two's complement, read in the type. -/
def wrap (d : IntegerType) (n : Int) : Int :=
  d.read (BitVec.ofInt d.width n)

def Holds (d : IntegerType) (n : Int) : Prop :=
  if d.isSigned then -2 ^ (d.width - 1) ≤ n ∧ n < 2 ^ (d.width - 1) else 0 ≤ n ∧ n < 2 ^ d.width

instance (d : IntegerType) (n : Int) : Decidable (d.Holds n) := by
  unfold Holds
  infer_instance

variable {d : IntegerType}

/-! ## Truncation -/

theorem width_pos : 0 < d.width := by
  cases d <;> decide

theorem ofInt_read (w : BitVec d.width) : BitVec.ofInt d.width (d.read w) = w := by
  unfold read
  split
  · exact BitVec.ofInt_toInt
  · rw [BitVec.ofInt_natCast, BitVec.ofNat_toNat, BitVec.setWidth_eq]

theorem wrap_add (a b : Int) : d.wrap (d.wrap a + b) = d.wrap (a + b) := by
  unfold wrap
  rw [BitVec.ofInt_add, ofInt_read, ← BitVec.ofInt_add]

theorem wrap_mul (a b : Int) : d.wrap (d.wrap a * b) = d.wrap (a * b) := by
  unfold wrap
  rw [BitVec.ofInt_mul, ofInt_read, ← BitVec.ofInt_mul]

theorem holds_wrap (n : Int) : d.Holds (d.wrap n) := by
  unfold Holds wrap read
  split
  · exact ⟨BitVec.le_toInt _, BitVec.toInt_lt⟩
  · have hlt := (BitVec.ofInt d.width n).isLt
    exact ⟨Int.natCast_nonneg _, by exact_mod_cast hlt⟩

theorem wrap_of_holds {n : Int} (h : d.Holds n) : d.wrap n = n := by
  unfold Holds at h
  unfold wrap read
  split at h
  · next hsigned =>
      rw [if_pos hsigned]
      exact BitVec.toInt_ofInt_eq_self width_pos h.1 h.2
  · next hunsigned =>
      have hcast : ((2 ^ d.width : Nat) : Int) = 2 ^ d.width := by push_cast; rfl
      rw [if_neg hunsigned, BitVec.toNat_ofInt, hcast, Int.emod_eq_of_lt h.1 h.2,
        Int.toNat_of_nonneg h.1]

/-! ## Folds with truncated steps -/

theorem foldl_wrap {op : Int → Int → Int}
    (hop : ∀ a b, d.wrap (op (d.wrap a) b) = d.wrap (op a b)) (start : Int) (ns : List Int) :
    ns.foldl (fun a b => d.wrap (op a b)) (d.wrap start) = d.wrap (ns.foldl op start) :=
  List.foldl_hom d.wrap hop

theorem foldl_wrap_of_holds {op : Int → Int → Int}
    (hop : ∀ a b, d.Holds a → d.Holds b → d.Holds (op a b)) {ns : List Int}
    (hns : ∀ n ∈ ns, d.Holds n) {start : Int} (hstart : d.Holds start) :
    ns.foldl (fun a b => d.wrap (op a b)) start = ns.foldl op start := by
  apply Expr.foldl_congr_of_invariant d.Holds
  · -- What a step stores is in the type already, so truncating it does nothing.
    intro n hn a ha
    have hstep := hop a n ha (hns n hn)
    exact ⟨wrap_of_holds hstep, hstep⟩
  · exact hstart

theorem holds_max (a b : Int) (ha : d.Holds a) (hb : d.Holds b) : d.Holds (max a b) := by
  rcases max_choice a b with h | h
  · rwa [h]
  · rwa [h]

theorem holds_min (a b : Int) (ha : d.Holds a) (hb : d.Holds b) : d.Holds (min a b) := by
  rcases min_choice a b with h | h
  · rwa [h]
  · rwa [h]

/-! ## Extremes from a start value -/

theorem max?_eq_foldl_iff {ns : List Int} (hns : ns ≠ []) (start : Int) :
    ns.max? = some (ns.foldl max start) ↔ ∃ n ∈ ns, start ≤ n := by
  obtain ⟨m, hm⟩ := Option.ne_none_iff_exists'.1 (mt List.max?_eq_none_iff.1 hns)
  obtain ⟨hmem, hgreatest⟩ := List.max?_eq_some_iff.1 hm
  rw [List.foldl_max, hm, Option.getD_some, Option.some_inj, eq_comm, max_eq_right_iff]
  constructor
  · intro hstart
    exact ⟨m, hmem, hstart⟩
  · rintro ⟨n, hn, hstart⟩
    exact hstart.trans (hgreatest n hn)

theorem min?_eq_foldl_iff {ns : List Int} (hns : ns ≠ []) (start : Int) :
    ns.min? = some (ns.foldl min start) ↔ ∃ n ∈ ns, n ≤ start := by
  obtain ⟨m, hm⟩ := Option.ne_none_iff_exists'.1 (mt List.min?_eq_none_iff.1 hns)
  obtain ⟨hmem, hleast⟩ := List.min?_eq_some_iff.1 hm
  rw [List.foldl_min, hm, Option.getD_some, Option.some_inj, eq_comm, min_eq_right_iff]
  constructor
  · intro hstart
    exact ⟨m, hmem, hstart⟩
  · rintro ⟨n, hn, hstart⟩
    exact (hleast n hn).trans hstart

/-! ## The start values in a type -/

/-- The integer types share their start values. -/
theorem start_element (kind : ReductionKind) :
    kind.start exactIntegers d.element = kind.start exactIntegers .int64 := by
  cases d <;> cases kind <;> rfl

/-- The start value is in the type, and combining it with an element of the type gives the
element. -/
def Neutral (d : IntegerType) (kind : ReductionKind) : Prop :=
  d.Holds (kind.start exactIntegers d.element) ∧
    ∀ n, d.Holds n → exactIntegers.apply kind.combiner (kind.start exactIntegers d.element) n = n

/-- The start values of the extremes are the ends of the widest type, and outside all others. -/
theorem neutral_iff {kind : ReductionKind} (hkind : kind.isLogical = false) :
    d.Neutral kind ↔ (kind = .max ∨ kind = .min → d = .int64) := by
  unfold Neutral
  rw [start_element]
  cases kind with
  | sum =>
      have hstart : d.Holds 0 := by cases d <;> decide
      exact iff_of_true ⟨hstart, fun n _ => Int.zero_add n⟩ (by simp)
  | prod =>
      have hstart : d.Holds 1 := by cases d <;> decide
      exact iff_of_true ⟨hstart, fun n _ => Int.one_mul n⟩ (by simp)
  | max =>
      constructor
      · rintro ⟨hstart, _⟩ _
        revert hstart
        cases d <;> decide
      · intro h
        obtain rfl := h (.inl rfl)
        exact ⟨by decide, fun n hn => max_eq_right hn.1⟩
  | min =>
      constructor
      · rintro ⟨hstart, _⟩ _
        revert hstart
        cases d <;> decide
      · intro h
        obtain rfl := h (.inr rfl)
        exact ⟨by decide, fun n hn => min_eq_right (Int.le_sub_one_of_lt hn.2)⟩
  | all => contradiction
  | any => contradiction

theorem wrap_start_max :
    d.wrap (ReductionKind.max.start exactIntegers d.element) =
      if d = .int64 then -2 ^ 63 else 0 := by
  cases d <;> decide

theorem wrap_start_min :
    d.wrap (ReductionKind.min.start exactIntegers d.element) =
      if d = .int64 then 2 ^ 63 - 1 else if d = .uint8 then 255 else -1 := by
  cases d <;> decide

theorem wrap_start_max_le_iff {n : Int} (hn : d.Holds n) :
    d.wrap (ReductionKind.max.start exactIntegers d.element) ≤ n ↔
      (d = .int64 ∨ d = .uint8) ∨ 0 ≤ n := by
  rw [wrap_start_max]
  -- In `int64` the start value survives; in `uint8` zero is the least integer there is.
  cases d with
  | int64 => exact iff_of_true hn.1 (by simp)
  | uint8 => exact iff_of_true hn.1 (by simp)
  | int8 | int16 | int32 => simp

theorem le_wrap_start_min_iff {n : Int} (hn : d.Holds n) :
    n ≤ d.wrap (ReductionKind.min.start exactIntegers d.element) ↔
      (d = .int64 ∨ d = .uint8) ∨ n < 0 := by
  rw [wrap_start_min]
  cases d with
  | int64 => exact iff_of_true (Int.le_sub_one_of_lt hn.2) (by simp)
  | uint8 => exact iff_of_true (Int.le_sub_one_of_lt hn.2) (by simp)
  | int8 | int16 | int32 =>
      simp only [reduceCtorEq, if_false, false_or]
      omega

/-! ## Reductions in a type -/

/-- What a reduction of integers of the type is: a sum or product modulo the width of the type, or
the exact extreme. -/
def reduction? (d : IntegerType) : ReductionKind → List Int → Option Int
  | .sum, ns => some (d.wrap ns.sum)
  | .prod, ns => some (d.wrap ns.prod)
  | .max, ns => ns.max?
  | .min, ns => ns.min?
  | .all, _ | .any, _ => none

def truncatedFold (d : IntegerType) (kind : ReductionKind) (ns : List Int) : Int :=
  ns.foldl (fun a b => d.wrap (exactIntegers.apply kind.combiner a b))
    (d.wrap (kind.start exactIntegers d.element))

theorem truncatedFold_sum (ns : List Int) : d.truncatedFold .sum ns = d.wrap ns.sum := by
  calc d.truncatedFold .sum ns
      = d.wrap (ns.foldl (· + ·) (ReductionKind.sum.start exactIntegers d.element)) :=
        foldl_wrap wrap_add _ ns
    _ = d.wrap (ns.foldl (· + ·) 0) := by rw [start_element]; rfl
    _ = d.wrap ns.sum := by rw [List.sum_eq_foldl]

theorem truncatedFold_prod (ns : List Int) : d.truncatedFold .prod ns = d.wrap ns.prod := by
  calc d.truncatedFold .prod ns
      = d.wrap (ns.foldl (· * ·) (ReductionKind.prod.start exactIntegers d.element)) :=
        foldl_wrap wrap_mul _ ns
    _ = d.wrap (ns.foldl (· * ·) 1) := by rw [start_element]; rfl
    _ = d.wrap ns.prod := by rw [List.prod_eq_foldl]

theorem truncatedFold_max {ns : List Int} (hns : ∀ n ∈ ns, d.Holds n) :
    d.truncatedFold .max ns =
      ns.foldl max (d.wrap (ReductionKind.max.start exactIntegers d.element)) :=
  foldl_wrap_of_holds holds_max hns (holds_wrap _)

theorem truncatedFold_min {ns : List Int} (hns : ∀ n ∈ ns, d.Holds n) :
    d.truncatedFold .min ns =
      ns.foldl min (d.wrap (ReductionKind.min.start exactIntegers d.element)) :=
  foldl_wrap_of_holds holds_min hns (holds_wrap _)

theorem exists_mem_or_iff {ns : List Int} (hne : ns ≠ []) {p : Prop} {q : Int → Prop} :
    (∃ n ∈ ns, p ∨ q n) ↔ p ∨ ∃ n ∈ ns, q n := by
  constructor
  · rintro ⟨n, hn, hp | hq⟩
    · exact .inl hp
    · exact .inr ⟨n, hn, hq⟩
  · rintro (hp | ⟨n, hn, hq⟩)
    · obtain ⟨n, hn⟩ := List.exists_mem_of_ne_nil ns hne
      exact ⟨n, hn, .inl hp⟩
    · exact ⟨n, hn, .inr hq⟩

theorem max?_eq_truncatedFold_iff {ns : List Int} (hne : ns ≠ []) (hns : ∀ n ∈ ns, d.Holds n) :
    ns.max? = some (d.truncatedFold .max ns) ↔
      (d = .int64 ∨ d = .uint8) ∨ ∃ n ∈ ns, 0 ≤ n := by
  calc ns.max? = some (d.truncatedFold .max ns)
      ↔ ∃ n ∈ ns, d.wrap (ReductionKind.max.start exactIntegers d.element) ≤ n := by
        rw [truncatedFold_max hns, max?_eq_foldl_iff hne]
    _ ↔ ∃ n ∈ ns, (d = .int64 ∨ d = .uint8) ∨ 0 ≤ n :=
        exists_congr fun n => and_congr_right fun hn => wrap_start_max_le_iff (hns n hn)
    _ ↔ (d = .int64 ∨ d = .uint8) ∨ ∃ n ∈ ns, 0 ≤ n := exists_mem_or_iff hne

theorem min?_eq_truncatedFold_iff {ns : List Int} (hne : ns ≠ []) (hns : ∀ n ∈ ns, d.Holds n) :
    ns.min? = some (d.truncatedFold .min ns) ↔
      (d = .int64 ∨ d = .uint8) ∨ ∃ n ∈ ns, n < 0 := by
  calc ns.min? = some (d.truncatedFold .min ns)
      ↔ ∃ n ∈ ns, n ≤ d.wrap (ReductionKind.min.start exactIntegers d.element) := by
        rw [truncatedFold_min hns, min?_eq_foldl_iff hne]
    _ ↔ ∃ n ∈ ns, (d = .int64 ∨ d = .uint8) ∨ n < 0 :=
        exists_congr fun n => and_congr_right fun hn => le_wrap_start_min_iff (hns n hn)
    _ ↔ (d = .int64 ∨ d = .uint8) ∨ ∃ n ∈ ns, n < 0 := exists_mem_or_iff hne

/-- Folding with truncated steps is right for sums and products. An extreme is right in the types
whose far end the truncated start value is; in the others a maximum needs an element that is not
negative, and a minimum one that is. -/
theorem reduction?_eq_truncatedFold_iff {kind : ReductionKind} (hkind : kind.isLogical = false)
    {ns : List Int} (hne : ns ≠ []) (hns : ∀ n ∈ ns, d.Holds n) :
    d.reduction? kind ns = some (d.truncatedFold kind ns) ↔
      (kind = .max → (d = .int64 ∨ d = .uint8) ∨ ∃ n ∈ ns, 0 ≤ n) ∧
        (kind = .min → (d = .int64 ∨ d = .uint8) ∨ ∃ n ∈ ns, n < 0) := by
  cases kind with
  | sum => simp [reduction?, truncatedFold_sum]
  | prod => simp [reduction?, truncatedFold_prod]
  | max => simpa [reduction?] using max?_eq_truncatedFold_iff hne hns
  | min => simpa [reduction?] using min?_eq_truncatedFold_iff hne hns
  | all => contradiction
  | any => contradiction

end IntegerType

end Reductions
