/-!
# Reading integers into fixed-width words

An integer that a document or a command line gives has no width of its own. Each reader here takes
it into one word type and refuses it when the word cannot hold it, so nothing wraps on the way in:
the result, if there is one, has exactly the value that was read.
-/

namespace Reductions.Word

def int64? (n : Int) : Option Int64 :=
  if (Int64.ofInt n).toInt = n then some (Int64.ofInt n) else none

def int32? (n : Int) : Option Int32 :=
  if (Int32.ofInt n).toInt = n then some (Int32.ofInt n) else none

def uint64? (n : Int) : Option UInt64 :=
  if ((UInt64.ofNat n.toNat).toNat : Int) = n then some (UInt64.ofNat n.toNat) else none

def uint32? (n : Int) : Option UInt32 :=
  if ((UInt32.ofNat n.toNat).toNat : Int) = n then some (UInt32.ofNat n.toNat) else none

/-! ## A word is read exactly from its value -/

theorem int64?_eq_some_iff {n : Int} {w : Int64} : int64? n = some w ↔ w.toInt = n := by
  unfold int64?
  constructor
  · intro h
    split at h
    · next eq => rw [← Option.some.inj h, eq]
    · contradiction
  · rintro rfl
    simp

theorem int32?_eq_some_iff {n : Int} {w : Int32} : int32? n = some w ↔ w.toInt = n := by
  unfold int32?
  constructor
  · intro h
    split at h
    · next eq => rw [← Option.some.inj h, eq]
    · contradiction
  · rintro rfl
    simp

theorem uint64?_eq_some_iff {n : Int} {w : UInt64} : uint64? n = some w ↔ (w.toNat : Int) = n := by
  unfold uint64?
  constructor
  · intro h
    split at h
    · next eq => rw [← Option.some.inj h, eq]
    · contradiction
  · rintro rfl
    simp

theorem uint32?_eq_some_iff {n : Int} {w : UInt32} : uint32? n = some w ↔ (w.toNat : Int) = n := by
  unfold uint32?
  constructor
  · intro h
    split at h
    · next eq => rw [← Option.some.inj h, eq]
    · contradiction
  · rintro rfl
    simp

theorem int64?_toInt (w : Int64) : int64? w.toInt = some w :=
  int64?_eq_some_iff.2 rfl

theorem int32?_toInt (w : Int32) : int32? w.toInt = some w :=
  int32?_eq_some_iff.2 rfl

theorem uint64?_toNat (w : UInt64) : uint64? w.toNat = some w :=
  uint64?_eq_some_iff.2 rfl

theorem uint32?_toNat (w : UInt32) : uint32? w.toNat = some w :=
  uint32?_eq_some_iff.2 rfl

end Reductions.Word
