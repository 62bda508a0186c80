import Reductions.Expr.LoopMarks
import Reductions.Proofs.Numerals

/-!
# Reading loop marks back

Splitting a text at a mark gives back the pieces that were joined with it, up to
the blanks around them. So the marks of a loop can be read from their text, the
bits without a name included.
-/

namespace Reductions

namespace Text

/-! ## Pieces between marks -/

theorem trim_cons_blank {c : Char} (h : isBlank c = true) (cs : List Char) :
    trim (c :: cs) = trim cs := by
  simp [trim, h]

theorem trim_append_blank {c : Char} (h : isBlank c = true) (cs : List Char) :
    trim (cs ++ [c]) = trim cs := by
  simp only [trim, List.dropWhile_append]
  by_cases hnil : cs.dropWhile isBlank = []
  · simp [h, hnil]
  · simp [h, List.isEmpty_eq_false_iff.2 hnil]

theorem trim_eq_self {cs : List Char} (h : ∀ c ∈ cs, isBlank c = false) : trim cs = cs := by
  have hfront (cs : List Char) (h : ∀ c ∈ cs, isBlank c = false) : cs.dropWhile isBlank = cs := by
    cases cs with
    | nil => rfl
    | cons c cs => simp [h c List.mem_cons_self]
  rw [trim, hfront cs h, hfront cs.reverse (by simpa using h), List.reverse_reverse]

theorem mem_dropWhile_isBlank {c : Char} {cs : List Char} (h : c ∈ cs)
    (hblank : isBlank c = false) : c ∈ cs.dropWhile isBlank := by
  induction cs with
  | nil => cases h
  | cons d cs ih =>
      by_cases hd : isBlank d = true
      · have hne : c ≠ d := by
          rintro rfl
          rw [hd] at hblank
          cases hblank
        rw [List.dropWhile_cons_of_pos hd]
        exact ih ((List.mem_cons.1 h).resolve_left hne)
      · rwa [List.dropWhile_cons_of_neg hd]

theorem mem_trim {c : Char} {cs : List Char} (h : c ∈ cs) (hblank : isBlank c = false) :
    c ∈ trim cs := by
  rw [trim, List.mem_reverse]
  apply mem_dropWhile_isBlank _ hblank
  rw [List.mem_reverse]
  exact mem_dropWhile_isBlank h hblank

theorem mem_join {mark piece : List Char} {c : Char} (hc : c ∈ piece) {pieces : List (List Char)}
    (h : piece ∈ pieces) : c ∈ join mark pieces := by
  induction pieces with
  | nil => cases h
  | cons first rest ih =>
      cases rest with
      | nil => rwa [join, ← List.mem_singleton.1 h]
      | cons next rest =>
          rw [join, List.mem_append, List.mem_append]
          · rcases List.mem_cons.1 h with rfl | hrest
            · exact .inl (.inl hc)
            · exact .inr (ih hrest)
          · simp

theorem of_mem_join {mark : List Char} {c : Char} {pieces : List (List Char)}
    (h : c ∈ join mark pieces) : c ∈ mark ∨ ∃ piece ∈ pieces, c ∈ piece := by
  induction pieces with
  | nil => cases h
  | cons first rest ih =>
      cases rest with
      | nil => exact .inr ⟨first, List.mem_cons_self, h⟩
      | cons next rest =>
          rw [join, List.mem_append, List.mem_append] at h
          · rcases h with (hfirst | hmark) | hrest
            · exact .inr ⟨first, List.mem_cons_self, hfirst⟩
            · exact .inl hmark
            · rcases ih hrest with hmark | ⟨piece, hpiece, hc⟩
              · exact .inl hmark
              · exact .inr ⟨piece, List.mem_cons_of_mem _ hpiece, hc⟩
          · simp

theorem split_of_not_mem {mark : Char} {cs : List Char} (h : mark ∉ cs) : split mark cs = [cs] := by
  induction cs with
  | nil => rfl
  | cons c cs ih =>
      rw [List.mem_cons, not_or] at h
      simp [split, Ne.symm h.1, ih h.2]

theorem split_append_cons {mark : Char} {front : List Char} (h : mark ∉ front) (back : List Char) :
    split mark (front ++ mark :: back) = front :: split mark back := by
  induction front with
  | nil => simp [split]
  | cons c front ih =>
      rw [List.mem_cons, not_or] at h
      simp [split, Ne.symm h.1, ih h.2]

theorem append_cons_inj {mark : Char} {as bs as' bs' : List Char} (ha : mark ∉ as)
    (ha' : mark ∉ as') (h : as ++ mark :: bs = as' ++ mark :: bs') : as = as' ∧ bs = bs' := by
  have hsplit := congrArg (split mark) h
  rw [split_append_cons ha, split_append_cons ha'] at hsplit
  obtain rfl := (List.cons.inj hsplit).1
  exact ⟨rfl, (List.cons.inj (List.append_cancel_left h)).2⟩

theorem map_trim_split_cons_blank {mark c : Char} (hblank : isBlank c = true) (hmark : c ≠ mark)
    (cs : List Char) : (split mark (c :: cs)).map trim = (split mark cs).map trim := by
  rw [split, if_neg hmark]
  cases hsplit : split mark cs with
  | nil => exact absurd hsplit (split_ne_nil mark cs)
  | cons piece rest => simp [trim_cons_blank hblank]

theorem map_trim_split_join {mark : Char} (hmark : mark ≠ ' ') {pieces : List (List Char)}
    (hne : pieces ≠ []) (hplain : ∀ piece ∈ pieces, ∀ c ∈ piece, isBlank c = false)
    (hfree : ∀ piece ∈ pieces, mark ∉ piece) :
    (split mark (join [' ', mark, ' '] pieces)).map trim = pieces := by
  have hspace : isBlank ' ' = true := by decide
  induction pieces with
  | nil => exact absurd rfl hne
  | cons piece rest ih =>
      have htrim : trim piece = piece := trim_eq_self (hplain piece List.mem_cons_self)
      have hnot : mark ∉ piece := hfree piece List.mem_cons_self
      cases rest with
      | nil => simp [join, split_of_not_mem hnot, htrim]
      | cons next rest =>
          have hback := ih (List.cons_ne_nil next rest)
            (fun p hp => hplain p (List.mem_cons_of_mem _ hp))
            (fun p hp => hfree p (List.mem_cons_of_mem _ hp))
          have hfront : mark ∉ piece ++ [' '] := by simp [hnot, hmark]
          have hjoin : join [' ', mark, ' '] (piece :: next :: rest) =
              (piece ++ [' ']) ++ mark :: ' ' :: join [' ', mark, ' '] (next :: rest) := by
            simp [join]
          rw [hjoin, split_append_cons hfront, List.map_cons, trim_append_blank hspace, htrim,
            map_trim_split_cons_blank hspace hmark.symm, hback]

end Text

namespace LoopMarks

/-! ## Names of marks -/

theorem ofName?_hex (bits : UInt32) :
    ofName? (hexMark ++ Numeral.hexOfNat bits.toNat) = some ⟨bits⟩ := by
  have hread : Numeral.toUnsigned? 16 (Nat.toDigits 16 bits.toNat) = some bits.toNat :=
    Numeral.toUnsigned?_toDigits (by decide) (by decide) bits.toNat
  have hlt : bits.toNat < UInt32.size := bits.toNat_lt_size
  simp [hexMark, Numeral.hexOfNat, ofName?, hread, hlt]

/-- What holds of hexadecimal digits and of the fixed parts holds of every character of a name. -/
theorem of_mem_names {p : Char → Bool} (hdigit : ∀ d < 16, p d.digitChar = true)
    (hhex : hexMark.all p = true) (hreduction : reductionName.all p = true) {m : LoopMarks}
    {name : List Char} (hname : name ∈ m.names) {c : Char} (hc : c ∈ name) : p c = true := by
  simp only [names, List.mem_append] at hname
  rcases hname with hnamed | hunnamed
  · split at hnamed
    · rw [List.mem_singleton.1 hnamed] at hc
      exact List.all_eq_true.1 hreduction c hc
    · cases hnamed
  · split at hunnamed
    · cases hunnamed
    · rw [List.mem_singleton.1 hunnamed] at hc
      rcases List.mem_append.1 hc with hmark | hdigits
      · exact List.all_eq_true.1 hhex c hmark
      · exact Numeral.of_mem_toDigits (P := fun c => p c = true) hdigit (by decide) (by decide)
          hdigits

theorem name_ne_nil {m : LoopMarks} {name : List Char} (hname : name ∈ m.names) : name ≠ [] := by
  simp only [names, List.mem_append] at hname
  rcases hname with hnamed | hunnamed
  · split at hnamed
    · rw [List.mem_singleton.1 hnamed]
      decide
    · cases hnamed
  · split at hunnamed
    · cases hunnamed
    · rw [List.mem_singleton.1 hunnamed]
      exact List.cons_ne_nil _ _

theorem of_mem_name {m : LoopMarks} {name : List Char} (hname : name ∈ m.names) :
    name ≠ [] ∧ ∀ c ∈ name, Text.isBlank c = false ∧ c ≠ '|' := by
  refine ⟨name_ne_nil hname, fun c hc => ?_⟩
  have hplain := of_mem_names (p := fun c => !Text.isBlank c && c != '|') (by decide) (by decide)
    (by decide) hname hc
  simpa using hplain

theorem map_trim_split_write {m : LoopMarks} (h : m.names ≠ []) :
    (Text.split '|' m.write).map Text.trim = m.names := by
  apply Text.map_trim_split_join (by decide) h
  · exact fun name hname c hc => ((of_mem_name hname).2 c hc).1
  · exact fun name hname hc => ((of_mem_name hname).2 _ hc).2 rfl

theorem trim_write_ne_nil {m : LoopMarks} (h : m.names ≠ []) : Text.trim m.write ≠ [] := by
  obtain ⟨name, hname⟩ := List.exists_mem_of_ne_nil _ h
  obtain ⟨hne, hplain⟩ := of_mem_name hname
  obtain ⟨c, hc⟩ := List.exists_mem_of_ne_nil _ hne
  exact List.ne_nil_of_mem (Text.mem_trim (Text.mem_join hc hname) (hplain c hc).1)

theorem union_unnamed (m : LoopMarks) :
    (if m.isReduction then reduction else empty).union ⟨m.unnamed⟩ = m := by
  have hsplit : m.bits &&& 1 ||| m.bits &&& ~~~1 = m.bits := by
    have hall : (1 : UInt32) ||| ~~~1 = -1 := UInt32.or_not_self
    apply UInt32.toBitVec_inj.1
    rw [UInt32.toBitVec_or, UInt32.toBitVec_and, UInt32.toBitVec_and, ← BitVec.and_or_distrib_left,
      ← UInt32.toBitVec_or, hall, ← UInt32.toBitVec_and, UInt32.and_neg_one]
  have hbit : m.bits &&& 1 = 0 ∨ m.bits &&& 1 = 1 := by
    simp only [← UInt32.toNat_inj, UInt32.toNat_and]
    have hmod : m.bits.toNat &&& 1 = m.bits.toNat % 2 := Nat.and_one_is_mod _
    change m.bits.toNat &&& 1 = 0 ∨ m.bits.toNat &&& 1 = 1
    omega
  rcases hbit with hzero | hone
  · rw [hzero] at hsplit
    simp [isReduction, reduction, empty, union, unnamed, hzero, hsplit]
  · rw [hone] at hsplit
    simp [isReduction, reduction, union, unnamed, hone, hsplit]

theorem foldlM_names (m : LoopMarks) :
    m.names.foldlM (fun marks name => (ofName? name).map marks.union) empty = some m := by
  have hnamed : (if m.isReduction then [reductionName] else []).foldlM
      (fun marks name => (ofName? name).map marks.union) empty =
        some (if m.isReduction then reduction else empty) := by
    split
    · decide
    · rfl
  have hunnamed (marks : LoopMarks) :
      (if m.unnamed = 0 then [] else [hexMark ++ Numeral.hexOfNat m.unnamed.toNat]).foldlM
        (fun marks name => (ofName? name).map marks.union) marks =
          some (marks.union ⟨m.unnamed⟩) := by
    by_cases hzero : m.unnamed = 0
    · simp [hzero, union]
    · simp [hzero, ofName?_hex]
  rw [names, List.foldlM_append, hnamed, Option.bind_eq_bind, Option.bind_some, hunnamed,
    union_unnamed]

theorem ofText?_write (m : LoopMarks) : ofText? m.write = some m := by
  have hread := m.foldlM_names
  by_cases hnames : m.names = []
  · rw [hnames] at hread
    rw [write, hnames]
    exact hread
  · rw [← map_trim_split_write hnames, List.foldlM_map] at hread
    rw [ofText?, if_neg (by simpa using trim_write_ne_nil hnames)]
    exact hread

theorem write_inj {m m' : LoopMarks} (h : m.write = m'.write) : m = m' := by
  have hread := ofText?_write m
  rw [h, ofText?_write] at hread
  exact (Option.some.inj hread).symm

theorem not_mem_write (m : LoopMarks) : ')' ∉ m.write := by
  intro hmem
  rcases Text.of_mem_join hmem with hmark | ⟨name, hname, hc⟩
  · exact absurd hmark (by decide)
  · have hne := of_mem_names (p := (· != ')')) (by decide) (by decide) (by decide) hname hc
    exact absurd hne (by decide)

end LoopMarks

end Reductions
