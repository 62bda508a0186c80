import Mathlib.Algebra.Group.Nat.Defs
import Mathlib.Data.List.Forall2
import Mathlib.Data.List.Lex
import Reductions.Proofs.Execution
import Reductions.Proofs.Projection

/-!
# Index spaces

The places of a tensor of known shape in lexicographic order, and which of them
a reduction puts together: the places of the source that agree with a place of
the result on the dimensions that are not reduced.
-/

namespace Reductions

/-! ## Dimensions -/

namespace Dim

def size : Dim → Nat
  | fixed size => size.toNat
  | symbol _ => 0

def Bounded : Dim → Prop
  | fixed size => size.toNat < 2 ^ 63
  | symbol _ => False

instance (dim : Dim) : Decidable dim.Bounded :=
  match dim with
  | fixed size => inferInstanceAs (Decidable (size.toNat < 2 ^ 63))
  | symbol _ => inferInstanceAs (Decidable False)

def words (dim : Dim) : List Int64 :=
  (List.range dim.size).map Int64.ofNat

theorem Bounded.size_lt {dim : Dim} (h : dim.Bounded) : dim.size < 2 ^ 63 := by
  cases dim with
  | fixed size => exact h
  | symbol name => exact h.elim

theorem mem_words {dim : Dim} (h : dim.Bounded) {w : Int64} :
    w ∈ dim.words ↔ 0 ≤ w.toInt ∧ w.toInt < dim.size := by
  have hsize := h.size_lt
  rw [words, List.mem_map]
  constructor
  · rintro ⟨k, hk, rfl⟩
    rw [List.mem_range] at hk
    rw [Int64.toInt_ofNat_of_lt (by omega)]
    omega
  · rintro ⟨hpos, hlt⟩
    refine ⟨w.toInt.toNat, ?_, ?_⟩
    · rw [List.mem_range]
      omega
    · apply Int64.toInt.inj
      rw [Int64.toInt_ofNat_of_lt (by omega)]
      omega

theorem words_pairwise {dim : Dim} (h : dim.Bounded) : dim.words.Pairwise (· < ·) := by
  have hsize := h.size_lt
  rw [words, List.pairwise_map]
  apply List.pairwise_lt_range.imp_of_mem
  intro a b ha hb hlt
  rw [List.mem_range] at ha hb
  rw [Int64.lt_iff_toInt_lt, Int64.toInt_ofNat_of_lt (by omega),
    Int64.toInt_ofNat_of_lt (by omega)]
  omega

theorem words_fixed_one : (fixed 1).words = [0] := by
  decide

theorem asInt?_extent_eq_one_iff {dim : Dim} : dim.extent.asInt? = some 1 ↔ dim = fixed 1 := by
  cases dim with
  | symbol name => exact iff_of_false nofun nofun
  | fixed size =>
      constructor
      · intro h
        have hone : (UInt64.ofNat size.toNat).toInt64 = (1 : UInt64).toInt64 := Option.some.inj h
        have hsame := congrArg Int64.toUInt64 hone
        rw [UInt64.toUInt64_toInt64, UInt64.toUInt64_toInt64, UInt64.ofNat_toNat] at hsame
        rw [hsame]
      · rintro ⟨⟩
        rfl

end Dim

def Shape.Bounded (s : Shape) : Prop :=
  ∀ dim ∈ s.dims, dim.Bounded

instance (s : Shape) : Decidable s.Bounded :=
  inferInstanceAs (Decidable (∀ dim ∈ s.dims, dim.Bounded))

theorem Shape.Bounded.reduced {s : Shape} (h : s.Bounded) (axes : List UInt64) (keepdim : Bool) :
    (s.reduced axes keepdim).Bounded := by
  intro dim hdim
  rw [Shape.reduced_dims] at hdim
  rcases mem_collapse hdim with hunit | hsource
  · rw [hunit]
    exact (by decide : (1 : UInt64).toNat < 2 ^ 63)
  · exact h dim hsource

/-! ## Places -/

/-- The places of a tensor with the given dimensions, in lexicographic order. -/
def places : List Dim → List Index
  | [] => [[]]
  | dim :: dims => dim.words.flatMap fun w => (places dims).map (w :: ·)

def Shape.indices (s : Shape) : List Index :=
  places s.dims

theorem cons_mem_places {w : Int64} {i : Index} {dim : Dim} {dims : List Dim} :
    w :: i ∈ places (dim :: dims) ↔ w ∈ dim.words ∧ i ∈ places dims := by
  simp [places]

theorem exists_cons_of_mem_places {i : Index} {dim : Dim} {dims : List Dim}
    (h : i ∈ places (dim :: dims)) :
    ∃ w j, i = w :: j ∧ w ∈ dim.words ∧ j ∈ places dims := by
  rw [places, List.mem_flatMap] at h
  obtain ⟨w, hw, h⟩ := h
  obtain ⟨j, hj, rfl⟩ := List.mem_map.1 h
  exact ⟨w, j, rfl, hw, hj⟩

theorem mem_places {dims : List Dim} {i : Index} :
    i ∈ places dims ↔ List.Forall₂ (fun w dim => w ∈ dim.words) i dims := by
  induction dims generalizing i with
  | nil => simp [places]
  | cons dim dims ih =>
      cases i with
      | nil => simp [places]
      | cons w i => rw [cons_mem_places, ih, List.forall₂_cons]

theorem Shape.Bounded.mem_indices {s : Shape} (h : s.Bounded) {i : Index} :
    i ∈ s.indices ↔
      List.Forall₂ (fun w dim => 0 ≤ w.toInt ∧ w.toInt < dim.size) i s.dims := by
  rw [Shape.indices, mem_places, List.forall₂_iff_zip, List.forall₂_iff_zip]
  apply and_congr_right
  intro _
  apply forall₂_congr
  intro w dim
  apply imp_congr_right
  intro hmem
  exact Dim.mem_words (h dim (List.of_mem_zip hmem).2)

theorem length_of_mem_places {dims : List Dim} {i : Index} (h : i ∈ places dims) :
    i.length = dims.length :=
  (mem_places.1 h).length_eq

/-- The order of the places is lexicographic, and every place stands once. -/
theorem places_pairwise {dims : List Dim} (h : ∀ dim ∈ dims, dim.Bounded) :
    (places dims).Pairwise (List.Lex (· < ·)) := by
  induction dims with
  | nil => exact List.pairwise_singleton _ _
  | cons dim dims ih =>
      have hdim : dim.Bounded := h dim List.mem_cons_self
      have hdims := ih fun d hd => h d (List.mem_cons_of_mem _ hd)
      rw [places, List.pairwise_flatMap]
      constructor
      · intro w _
        rw [List.pairwise_map]
        exact hdims.imp fun hij => .cons hij
      · apply (Dim.words_pairwise hdim).imp
        intro v w hvw i hi j hj
        obtain ⟨i', _, rfl⟩ := List.mem_map.1 hi
        obtain ⟨j', _, rfl⟩ := List.mem_map.1 hj
        exact .rel hvw

theorem places_nodup {dims : List Dim} (h : ∀ dim ∈ dims, dim.Bounded) :
    (places dims).Nodup := by
  apply (places_pairwise h).imp
  intro i j hij
  apply List.Lex.to_ne
  refine List.Lex.imp ?_ i j hij
  intro v w hvw heq
  rw [heq, Int64.lt_iff_toInt_lt] at hvw
  omega

/-! ## Places of a result -/

/-- The dimension of the result that a dimension of the source becomes if it is not reduced. -/
def resultDim (reduced : Nat → Bool) (keepdim : Bool) (d : Nat) : Nat :=
  if keepdim then d else (List.range d).countP fun c => !reduced c

/-- A place of the source and one of the result agree on the dimensions that are not reduced. -/
def Agrees (reduced : Nat → Bool) (keepdim : Bool) (i o : Index) : Prop :=
  ∀ d < i.length, reduced d = false → i[d]? = o[resultDim reduced keepdim d]?

instance (reduced : Nat → Bool) (keepdim : Bool) (i o : Index) :
    Decidable (Agrees reduced keepdim i o) :=
  inferInstanceAs (Decidable (∀ d < i.length, _ → _))

theorem project_mem_places (reduced : Nat → Bool) (keepdim : Bool) {dims : List Dim} {i : Index}
    (hi : i ∈ places dims) :
    project reduced keepdim 0 i ∈ places (project reduced keepdim (.fixed 1) dims) := by
  induction dims generalizing reduced i with
  | nil =>
      have hnil : i = [] := by simpa [places] using hi
      rw [hnil]
      exact List.mem_singleton_self []
  | cons dim dims ih =>
      obtain ⟨w, j, rfl, hw, hj⟩ := exists_cons_of_mem_places hi
      have htail := ih (fun d => reduced (d + 1)) hj
      rw [project, project]
      by_cases hreduced : reduced 0
      · rw [if_pos hreduced, if_pos hreduced]
        cases keepdim with
        | true =>
            apply cons_mem_places.2
            rw [Dim.words_fixed_one]
            exact ⟨List.mem_singleton_self 0, htail⟩
        | false => exact htail
      · rw [if_neg hreduced, if_neg hreduced]
        exact cons_mem_places.2 ⟨hw, htail⟩

theorem collapse_mem_places (axes : List UInt64) (keepdim : Bool) {dims : List Dim} {i : Index}
    (hi : i ∈ places dims) :
    collapse axes keepdim 0 i ∈ places (collapse axes keepdim (.fixed 1) dims) := by
  have hproject := project_mem_places (containsAxis axes) keepdim hi
  rw [collapse, collapse]
  cases hdims : project (containsAxis axes) keepdim (Dim.fixed 1) dims with
  | nil =>
      rw [hdims] at hproject
      have hnil : project (containsAxis axes) keepdim 0 i = [] := by
        simpa [places] using hproject
      rw [hnil]
      decide
  | cons dim rest =>
      rw [hdims] at hproject
      obtain ⟨w, j, heq, _, _⟩ := exists_cons_of_mem_places hproject
      rw [heq] at hproject ⊢
      exact hproject

/-! ## Agreement, dimension by dimension -/

section Agreement

variable {reduced : Nat → Bool} {keepdim : Bool} {w u : Int64} {i o : Index}

theorem agrees_nil : Agrees reduced keepdim [] o := by
  intro d hd
  exact absurd hd (Nat.not_lt_zero d)

theorem resultDim_succ (d : Nat) :
    resultDim reduced keepdim (d + 1) =
      resultDim (fun d => reduced (d + 1)) keepdim d +
        if reduced 0 && !keepdim then 0 else 1 := by
  unfold resultDim
  cases keepdim with
  | true => simp
  | false =>
      rw [List.range_succ_eq_map, List.countP_cons, List.countP_map]
      cases reduced 0 <;> rfl

theorem agrees_cons_of_kept (h : reduced 0 = false) :
    Agrees reduced keepdim (w :: i) (u :: o) ↔
      w = u ∧ Agrees (fun d => reduced (d + 1)) keepdim i o := by
  have hzero : resultDim reduced keepdim 0 = 0 := by
    unfold resultDim
    cases keepdim <;> rfl
  constructor
  · intro hagrees
    constructor
    · have hhead := hagrees 0 (Nat.zero_lt_succ _) h
      rw [hzero] at hhead
      simpa using hhead
    · intro d hd hkept
      have hnext := hagrees (d + 1) (Nat.succ_lt_succ hd) hkept
      rw [resultDim_succ, h] at hnext
      simpa using hnext
  · rintro ⟨rfl, hagrees⟩ d hd hkept
    cases d with
    | zero =>
        rw [hzero]
        rfl
    | succ d =>
        have hnext := hagrees d (Nat.lt_of_succ_lt_succ hd) hkept
        rw [resultDim_succ, h]
        simpa using hnext

theorem agrees_cons_of_reduced (h : reduced 0 = true) {o' : Index}
    (ho : o' = if keepdim then 0 :: o else o) :
    Agrees reduced keepdim (w :: i) o' ↔ Agrees (fun d => reduced (d + 1)) keepdim i o := by
  have hentry (d : Nat) : o'[resultDim reduced keepdim (d + 1)]? =
      o[resultDim (fun d => reduced (d + 1)) keepdim d]? := by
    rw [resultDim_succ, h, ho]
    cases keepdim <;> simp
  constructor
  · intro hagrees d hd hkept
    have hnext := hagrees (d + 1) (Nat.succ_lt_succ hd) hkept
    rw [hentry] at hnext
    simpa using hnext
  · intro hagrees d hd hkept
    cases d with
    | zero =>
        rw [h] at hkept
        cases hkept
    | succ d =>
        rw [hentry]
        simpa using hagrees d (Nat.lt_of_succ_lt_succ hd) hkept

end Agreement

theorem project_eq_iff {reduced : Nat → Bool} {keepdim : Bool} {dims : List Dim} {i o : Index}
    (hi : i ∈ places dims) (ho : o ∈ places (project reduced keepdim (.fixed 1) dims)) :
    project reduced keepdim 0 i = o ↔ Agrees reduced keepdim i o := by
  induction dims generalizing reduced i o with
  | nil =>
      have hinil : i = [] := by simpa [places] using hi
      have honil : o = [] := by simpa [places, project] using ho
      rw [hinil, honil]
      exact iff_of_true rfl agrees_nil
  | cons dim dims ih =>
      obtain ⟨w, j, rfl, hw, hj⟩ := exists_cons_of_mem_places hi
      rw [project] at ho ⊢
      by_cases hreduced : reduced 0
      · rw [if_pos hreduced] at ho ⊢
        cases keepdim with
        | true =>
            obtain ⟨u, o', rfl, hu, ho'⟩ := exists_cons_of_mem_places ho
            rw [Dim.words_fixed_one, List.mem_singleton] at hu
            have hcons : Agrees reduced true (w :: j) (u :: o') ↔
                Agrees (fun d => reduced (d + 1)) true j o' :=
              agrees_cons_of_reduced hreduced (by rw [hu]; rfl)
            rw [hcons, ← ih hj ho', hu]
            simp
        | false =>
            have hcons : Agrees reduced false (w :: j) o ↔
                Agrees (fun d => reduced (d + 1)) false j o :=
              agrees_cons_of_reduced hreduced rfl
            rw [hcons, ← ih hj ho]
            rfl
      · rw [if_neg hreduced] at ho ⊢
        obtain ⟨u, o', rfl, hu, ho'⟩ := exists_cons_of_mem_places ho
        rw [agrees_cons_of_kept (Bool.eq_false_iff.2 hreduced), ← ih hj ho']
        simp

theorem collapse_eq_iff {axes : List UInt64} {keepdim : Bool} {dims : List Dim} {i o : Index}
    (hi : i ∈ places dims) (ho : o ∈ places (collapse axes keepdim (.fixed 1) dims)) :
    collapse axes keepdim 0 i = o ↔ Agrees (containsAxis axes) keepdim i o := by
  have hproject := project_mem_places (containsAxis axes) keepdim hi
  rw [collapse] at ho ⊢
  cases hdims : project (containsAxis axes) keepdim (Dim.fixed 1) dims with
  | nil =>
      -- Every dimension is reduced, and both sides hold.
      rw [hdims] at hproject ho
      have hinil : project (containsAxis axes) keepdim 0 i = [] := by
        simpa [places] using hproject
      have hozero : o = [0] := by
        simpa [orUnit, places, Dim.words_fixed_one] using ho
      have hnone : Agrees (containsAxis axes) keepdim i [] := by
        rw [← project_eq_iff hi (by rw [hdims]; exact List.mem_singleton_self [])]
        exact hinil
      rw [hinil, hozero]
      refine iff_of_true rfl fun d hd hkept => ?_
      have hsome := hnone d hd hkept
      rw [List.getElem?_eq_getElem hd] at hsome
      cases hsome
  | cons dim rest =>
      rw [hdims] at hproject ho
      obtain ⟨w, j, heq, _, _⟩ := exists_cons_of_mem_places hproject
      rw [← project_eq_iff hi (by rw [hdims]; exact ho), heq]
      rfl

end Reductions
