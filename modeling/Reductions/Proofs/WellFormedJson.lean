import Mathlib.Algebra.Order.Ring.Int
import Reductions.Json.Reader

/-!
# Documents and their parts

In a document whole numbers fit a 64-bit word, signed or not, and all other
numbers are finite. The reader gives no other documents. An element of
a list has no more levels than the list.
-/

namespace Reductions.Json

/-! ## Levels -/

theorem depth_le_depthAll {j : Json} {js : List Json} (h : j ∈ js) : j.depth ≤ depthAll js := by
  induction js with
  | nil => cases h
  | cons k js ih =>
      rw [depthAll]
      rcases List.mem_cons.1 h with rfl | hrest
      · omega
      · have hle := ih hrest
        omega

theorem depth_pos (j : Json) : 0 < j.depth := by
  cases j <;> simp [depth]

/-! ## Numbers -/

/-- Whole numbers fit a word, signed or not, and all other numbers are finite. -/
inductive WellFormed : Json → Prop where
  | null : WellFormed null
  | bool (b : Bool) : WellFormed (bool b)
  | int {n : Int} : -2 ^ 63 ≤ n → n < 2 ^ 64 → WellFormed (int n)
  | float {x : Binary64} : x.isFinite = true → WellFormed (float x)
  | string (s : String) : WellFormed (string s)
  | array {elements : List Json} : (∀ j ∈ elements, WellFormed j) → WellFormed (array elements)
  | object {members : List (String × Json)} : (∀ m ∈ members, WellFormed m.2) →
      WellFormed (object members)

theorem WellFormed.element {elements : List Json} (h : WellFormed (.array elements)) :
    ∀ j ∈ elements, WellFormed j := by
  cases h with
  | array helements => exact helements

theorem WellFormed.member {members : List (String × Json)} (h : WellFormed (.object members)) :
    ∀ m ∈ members, WellFormed m.2 := by
  cases h with
  | object hmembers => exact hmembers

theorem WellFormed.member? {members : List (String × Json)} (h : WellFormed (.object members))
    {name : String} {j : Json} (hj : member? members name = some j) : WellFormed j := by
  obtain ⟨front, back, hsplit, _⟩ := List.lookup_eq_some_iff.1 hj
  exact h.member (name, j) (by simp [hsplit])

theorem wellFormed_ofParts {negative : Bool} {whole fraction : List Char} {exponent : Option Int}
    {j : Json} (h : ofParts negative whole fraction exponent = some j) : j.WellFormed := by
  obtain ⟨digits, _, h⟩ := Option.bind_eq_some_iff.1 h
  dsimp only at h
  generalize (if negative then -(digits : Int) else digits) = signed at h
  split at h
  · next hwhole =>
    obtain rfl := Option.some.inj h
    simp only [Bool.and_eq_true, Bool.or_eq_true, Option.isSome_iff_exists] at hwhole
    rcases hwhole.2 with ⟨w, hw⟩ | ⟨w, hw⟩
    · have hvalue := Word.int64?_eq_some_iff.1 hw
      have hlow := w.le_toInt
      have hhigh := w.toInt_lt
      exact .int (by omega) (by omega)
    · have hvalue := Word.uint64?_eq_some_iff.1 hw
      have hhigh := w.toNat_lt
      exact .int (by omega) (by omega)
  · split at h
    · next hfinite =>
      obtain rfl := Option.some.inj h
      exact .float hfinite
    · cases h

theorem wellFormed_readMagnitude {negative : Bool} {cs rest : List Char} {j : Json}
    (h : readMagnitude negative cs = some (j, rest)) : j.WellFormed := by
  simp only [readMagnitude] at h
  split at h
  · cases h
  · split at h
    · cases h
    · split at h
      · cases h
      · obtain ⟨k, hparts, heq⟩ := Option.map_eq_some_iff.1 h
        obtain rfl := (Prod.mk.inj heq).1
        exact wellFormed_ofParts hparts

theorem wellFormed_readNumber {cs rest : List Char} {j : Json}
    (h : readNumber cs = some (j, rest)) : j.WellFormed := by
  unfold readNumber at h
  split at h
  · exact wellFormed_readMagnitude h
  · exact wellFormed_readMagnitude h

theorem wellFormed_readWord {word : List Char} {j k : Json} {cs rest : List Char}
    (hword : k.WellFormed) (h : readWord word k cs = some (j, rest)) : j.WellFormed := by
  unfold readWord at h
  split at h
  · obtain rfl := (Prod.mk.inj (Option.some.inj h)).1
    exact hword
  · cases h

/-! ## Reading -/

theorem wellFormed_setMember {members : List (String × Json)} {name : String} {j : Json}
    (hmembers : ∀ m ∈ members, m.2.WellFormed) (hj : j.WellFormed) :
    ∀ m ∈ setMember members name j, m.2.WellFormed := by
  intro m hm
  rw [setMember, List.mem_append, List.mem_filter, List.mem_singleton] at hm
  rcases hm with ⟨hold, _⟩ | rfl
  · exact hmembers m hold
  · exact hj

def ReadsWellFormed (fuel : Nat) : Prop :=
  (∀ cs j rest, readValue fuel cs = some (j, rest) → j.WellFormed) ∧
  (∀ cs js rest, readElements fuel cs = some (js, rest) → ∀ j ∈ js, j.WellFormed) ∧
  ∀ members cs ms rest, (∀ m ∈ members, m.2.WellFormed) →
    readMembers fuel members cs = some (ms, rest) → ∀ m ∈ ms, m.2.WellFormed

theorem wellFormed_readValue_succ {fuel : Nat} (ih : ReadsWellFormed fuel) {cs rest : List Char}
    {j : Json} (h : readValue (fuel + 1) cs = some (j, rest)) : j.WellFormed := by
  obtain ⟨_, helements, hmembers⟩ := ih
  rw [readValue] at h
  split at h
  · obtain ⟨s, _, heq⟩ := Option.map_eq_some_iff.1 h
    obtain rfl := (Prod.mk.inj heq).1
    exact .string _
  · split at h
    · obtain rfl := (Prod.mk.inj (Option.some.inj h)).1
      exact .array fun _ hj => nomatch hj
    · obtain ⟨⟨js, _⟩, hread, heq⟩ := Option.map_eq_some_iff.1 h
      obtain rfl := (Prod.mk.inj heq).1
      exact .array (helements _ js _ hread)
  · split at h
    · obtain rfl := (Prod.mk.inj (Option.some.inj h)).1
      exact .object fun _ hm => nomatch hm
    · obtain ⟨⟨ms, _⟩, hread, heq⟩ := Option.map_eq_some_iff.1 h
      obtain rfl := (Prod.mk.inj heq).1
      exact .object (hmembers [] _ ms _ (fun _ hm => nomatch hm) hread)
  · exact wellFormed_readWord (.bool true) h
  · exact wellFormed_readWord (.bool false) h
  · exact wellFormed_readWord .null h
  · exact wellFormed_readNumber h

theorem wellFormed_readElements_succ {fuel : Nat} (ih : ReadsWellFormed fuel)
    {cs rest : List Char} {js : List Json} (h : readElements (fuel + 1) cs = some (js, rest)) :
    ∀ j ∈ js, j.WellFormed := by
  obtain ⟨hvalue, helements, _⟩ := ih
  rw [readElements] at h
  split at h
  · cases h
  · next j _ hread =>
    have hj := hvalue _ j _ hread
    split at h
    · obtain ⟨⟨rest', _⟩, hrest, heq⟩ := Option.map_eq_some_iff.1 h
      obtain rfl := (Prod.mk.inj heq).1
      exact List.forall_mem_cons.2 ⟨hj, helements _ rest' _ hrest⟩
    · obtain rfl := (Prod.mk.inj (Option.some.inj h)).1
      exact List.forall_mem_singleton.2 hj
    · cases h

theorem wellFormed_readMembers_succ {fuel : Nat} (ih : ReadsWellFormed fuel)
    {members ms : List (String × Json)} {cs rest : List Char}
    (hmembers : ∀ m ∈ members, m.2.WellFormed)
    (h : readMembers (fuel + 1) members cs = some (ms, rest)) : ∀ m ∈ ms, m.2.WellFormed := by
  obtain ⟨hvalue, _, hrest⟩ := ih
  rw [readMembers] at h
  split at h
  · split at h
    · cases h
    · split at h
      · split at h
        · cases h
        · next j _ hread =>
          have hset (name : String) : ∀ m ∈ setMember members name j, m.2.WellFormed :=
            wellFormed_setMember hmembers (hvalue _ j _ hread)
          split at h
          · exact hrest _ _ ms _ (hset _) h
          · obtain rfl := (Prod.mk.inj (Option.some.inj h)).1
            exact hset _
          · cases h
      · cases h
  · cases h

theorem readsWellFormed (fuel : Nat) : ReadsWellFormed fuel := by
  induction fuel with
  | zero =>
      refine ⟨fun cs j rest h => ?_, fun cs js rest h => ?_, fun members cs ms rest _ h => ?_⟩
      · cases h
      · cases h
      · cases h
  | succ fuel ih =>
      exact ⟨fun _ _ _ => wellFormed_readValue_succ ih,
        fun _ _ _ => wellFormed_readElements_succ ih,
        fun _ _ _ _ => wellFormed_readMembers_succ ih⟩

theorem wellFormed_parse {text : String} {j : Json} (h : parse text = some j) : j.WellFormed := by
  simp only [parse] at h
  split at h
  · next k rest hread =>
    split at h
    · obtain rfl := Option.some.inj h
      exact (readsWellFormed _).1 _ _ _ hread
    · cases h
  · cases h

end Reductions.Json
