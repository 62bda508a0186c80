import Mathlib.Data.String.Basic

/-!
# The order of texts is the order of their bytes

Texts are ordered by their code points. In UTF-8 the code points of a text are
written one after another, each as a first byte and a number of continuation
bytes, and of two code points the greater one has the greater bytes, compared
from the front. So the bytes of two texts stand in the order of the texts.
-/

namespace Reductions.Text

def bytes (s : String) : List UInt8 :=
  s.toUTF8.data.toList

theorem bytes_eq_flatMap (s : String) : bytes s = s.toList.flatMap String.utf8EncodeChar := by
  rw [bytes, String.toUTF8, ← String.utf8Encode_toList, List.utf8Encode,
    List.toList_data_toByteArray]

/-! ## One code point -/

/-- The last digits of a number to the base 64, each in a byte that continues a code point. -/
def continuation : Nat → Nat → List UInt8
  | 0, _ => []
  | k + 1, n => continuation k (n / 64) ++ [UInt8.ofNat (n % 64 + 128)]

def continuationLength (n : Nat) : Nat :=
  if n ≤ 0x7F then 0 else if n ≤ 0x7FF then 1 else if n ≤ 0xFFFF then 2 else 3

def firstByte (n : Nat) : Nat :=
  n / 64 ^ continuationLength n +
    if n ≤ 0x7F then 0 else if n ≤ 0x7FF then 0xC0 else if n ≤ 0xFFFF then 0xE0 else 0xF0

theorem codePoint_lt (c : Char) : c.toNat < 0x110000 := by
  rcases c.valid with hlow | ⟨_, hhigh⟩
  · exact Nat.lt_trans hlow (by decide)
  · exact hhigh

theorem utf8EncodeChar_eq (c : Char) :
    String.utf8EncodeChar c =
      UInt8.ofNat (firstByte c.toNat) :: continuation (continuationLength c.toNat) c.toNat := by
  have hbound : c.toNat < 0x110000 := codePoint_lt c
  unfold String.utf8EncodeChar firstByte continuationLength Char.toNat at *
  generalize c.val.toNat = n at hbound
  by_cases hone : n ≤ 0x7F
  · simp [hone, continuation]
  by_cases htwo : n ≤ 0x7FF
  · have hfirst : n / 64 % 32 = n / 64 := by omega
    simp [hone, htwo, hfirst, continuation]
  by_cases hthree : n ≤ 0xFFFF
  · have hfirst : n / 4096 % 16 = n / 4096 := by omega
    simp [hone, htwo, hthree, hfirst, continuation]
  · have hfirst : n / 262144 % 8 = n / 262144 := by omega
    have hsecond : n / 64 / 64 = n / 4096 := Nat.div_div_eq_div_mul n 64 64
    simp [hone, htwo, hthree, hfirst, hsecond, continuation]

theorem firstByte_lt {n : Nat} (h : n < 0x110000) : firstByte n < 256 := by
  unfold firstByte continuationLength
  split_ifs <;> omega

theorem firstByte_cases {m n : Nat} (hlt : m < n) (hn : n < 0x110000) :
    firstByte m < firstByte n ∨
      firstByte m = firstByte n ∧ continuationLength m = continuationLength n ∧
        m / 64 ^ continuationLength m = n / 64 ^ continuationLength m := by
  unfold firstByte continuationLength
  split_ifs <;> omega

theorem continuation_append_lt {k m n : Nat} (hlt : m < n) (hhigh : m / 64 ^ k = n / 64 ^ k)
    (u v : List UInt8) : continuation k m ++ u < continuation k n ++ v := by
  induction k generalizing m n u v with
  | zero =>
      rw [Nat.pow_zero, Nat.div_one, Nat.div_one] at hhigh
      omega
  | succ k ih =>
      rw [continuation, continuation, List.append_assoc, List.append_assoc]
      by_cases hlow : m / 64 = n / 64
      · have hbyte : UInt8.ofNat (m % 64 + 128) < UInt8.ofNat (n % 64 + 128) := by
          rw [UInt8.lt_iff_toNat_lt, UInt8.toNat_ofNat', UInt8.toNat_ofNat']
          omega
        rw [hlow]
        exact List.append_left_lt (List.cons_lt_cons_iff.2 (.inl hbyte))
      · apply ih
        · omega
        · rw [Nat.div_div_eq_div_mul, Nat.div_div_eq_div_mul, ← Nat.pow_succ', hhigh]

theorem utf8EncodeChar_append_lt {c d : Char} (h : c < d) (u v : List UInt8) :
    String.utf8EncodeChar c ++ u < String.utf8EncodeChar d ++ v := by
  have hd : d.toNat < 0x110000 := codePoint_lt d
  have hlt : c.toNat < d.toNat := h
  have hc : c.toNat < 0x110000 := hlt.trans hd
  rw [utf8EncodeChar_eq, utf8EncodeChar_eq, List.cons_append, List.cons_append,
    List.cons_lt_cons_iff]
  rcases firstByte_cases hlt hd with hfirst | ⟨hfirst, hlength, hhigh⟩
  · left
    rw [UInt8.lt_iff_toNat_lt, UInt8.toNat_ofNat_of_lt' (firstByte_lt hc),
      UInt8.toNat_ofNat_of_lt' (firstByte_lt hd)]
    exact hfirst
  · rw [hfirst, ← hlength]
    exact .inr ⟨rfl, continuation_append_lt hlt hhigh u v⟩

/-! ## Texts -/

theorem flatMap_utf8EncodeChar_lt {cs ds : List Char} (h : cs < ds) :
    cs.flatMap String.utf8EncodeChar < ds.flatMap String.utf8EncodeChar := by
  induction h with
  | nil =>
      rw [List.flatMap_nil, List.flatMap_cons, utf8EncodeChar_eq]
      exact List.nil_lt_cons _ _
  | rel hlt =>
      rw [List.flatMap_cons, List.flatMap_cons]
      exact utf8EncodeChar_append_lt hlt _ _
  | cons _ ih =>
      rw [List.flatMap_cons, List.flatMap_cons]
      exact List.append_left_lt ih

theorem bytes_lt_of_lt {s t : String} (h : s < t) : bytes s < bytes t := by
  rw [bytes_eq_flatMap, bytes_eq_flatMap]
  exact flatMap_utf8EncodeChar_lt (String.lt_iff.1 h)

/-- Texts are ordered as their bytes are. -/
theorem bytes_lt_iff {s t : String} : bytes s < bytes t ↔ s < t := by
  constructor
  · intro h
    rcases lt_trichotomy s t with hlt | rfl | hgt
    · exact hlt
    · exact absurd h (List.lt_irrefl _)
    · exact absurd (bytes_lt_of_lt hgt) (List.lt_asymm h)
  · exact bytes_lt_of_lt

end Reductions.Text
