import Reductions.Proofs.Documents

/-!
# Accepted documents

Whatever document a reader accepts, the value that it gives can be written and
read again without a change. So the first writing settles the text of a value,
although many documents may stand for it.
-/

namespace Reductions

namespace Serial

variable {α : Type}

/-- What the reader makes of a document has the property. -/
def Yields (P : α → Prop) (decode : Json → Option α) : Prop :=
  ∀ j a, j.WellFormed → decode j = some a → P a

variable {P : α → Prop} {decode : Json → Option α}

theorem wellFormed_content {j content : Json} {name : String} (hj : j.WellFormed)
    (h : case? j = some (name, some content)) : content.WellFormed := by
  unfold case? at h
  split at h
  · cases h
  · obtain ⟨rfl, hcontent⟩ := Prod.mk.inj (Option.some.inj h)
    obtain rfl := Option.some.inj hcontent
    exact hj.member _ (List.mem_singleton_self _)
  · cases h

theorem mem_of_some_mem_padded {n : Nat} {js : List Json} {j : Json}
    (h : some j ∈ padded n js) : j ∈ js := by
  induction n generalizing js with
  | zero => cases h
  | succ n ih =>
      cases js with
      | nil =>
          rw [padded, List.mem_cons] at h
          exact ih (h.resolve_left (Option.some_ne_none j))
      | cons k js =>
          rw [padded, List.mem_cons, Option.some.injEq] at h
          exact List.mem_cons.2 (h.imp_right ih)

theorem wellFormed_field {names : List String} {j k : Json} {fields : List (Option Json)}
    (hj : j.WellFormed) (h : fields? names j = some fields) (hk : some k ∈ fields) :
    k.WellFormed := by
  unfold fields? at h
  split at h
  · obtain rfl := Option.some.inj h
    obtain ⟨name, _, hmember⟩ := List.mem_map.1 hk
    exact hj.member? hmember
  · split at h
    · obtain rfl := Option.some.inj h
      exact hj.element k (mem_of_some_mem_padded hk)
    · cases h
  · cases h

/-- A required field is read from a value that the record has. -/
theorem Yields.required (hdecode : Yields P decode) {names : List String} {j : Json}
    {fields : List (Option Json)} (hj : j.WellFormed) (h : fields? names j = some fields)
    {field : Option Json} (hfield : field ∈ fields) {a : α}
    (ha : Serial.required decode field = some a) : P a := by
  obtain ⟨k, rfl, hk⟩ := Option.bind_eq_some_iff.1 ha
  exact hdecode k a (wellFormed_field hj h hfield) hk

theorem Yields.mapM (hdecode : Yields P decode) {js : List Json}
    (hjs : ∀ j ∈ js, j.WellFormed) {as : List α} (h : js.mapM decode = some as) :
    ∀ a ∈ as, P a := by
  induction js generalizing as with
  | nil =>
      obtain rfl := Option.some.inj h
      exact fun _ ha => nomatch ha
  | cons j js ih =>
      obtain ⟨hj, hrest⟩ := List.forall_mem_cons.1 hjs
      simp only [List.mapM_cons, Option.bind_eq_bind, Option.bind_eq_some_iff] at h
      obtain ⟨a, ha, bs, hbs, heq⟩ := h
      obtain rfl := Option.some.inj heq
      exact List.forall_mem_cons.2 ⟨hdecode j a hj ha, ih hrest hbs⟩

theorem Yields.list (hdecode : Yields P decode) : Yields (∀ a ∈ ·, P a) (list? decode) := by
  intro j as hj h
  obtain ⟨elements, helements, hmap⟩ := Option.bind_eq_some_iff.1 h
  cases j with
  | array js =>
      obtain rfl := Option.some.inj helements
      exact hdecode.mapM hj.element hmap
  | _ => cases helements

end Serial

namespace Expr

open Serial

variable {decode : Json → Option Expr}

theorem yields_float : Yields (fun x : Binary64 => x.isFinite = true) Serial.float? := by
  intro j x hj h
  cases hj with
  | int hlow hhigh =>
      obtain rfl := Option.some.inj h
      exact Binary64.isFinite_ofInt (by omega)
  | float hfinite =>
      obtain rfl := Option.some.inj h
      exact hfinite
  | _ => cases h

theorem yields_binary (hdecode : Yields Finite decode) : Yields Finite (binaryOfJson? decode) := by
  intro j e hj h
  unfold binaryOfJson? at h
  split at h
  · next op lhs rhs =>
    simp only [Option.bind_eq_bind, Option.bind_eq_some_iff, Option.some.injEq] at h
    obtain ⟨_, _, l, hl, r, hr, rfl⟩ := h
    exact finite_binary.2 ⟨hdecode lhs l (hj.element _ (by simp)) hl,
      hdecode rhs r (hj.element _ (by simp)) hr⟩
  · cases h

theorem yields_load (hdecode : Yields Finite decode) : Yields Finite (loadOfJson? decode) := by
  intro j e hj h
  unfold loadOfJson? at h
  split at h
  · split at h
    · next hfields =>
      simp only [Option.bind_eq_bind, Option.bind_eq_some_iff, Option.some.injEq] at h
      obtain ⟨_, _, is, his, rfl⟩ := h
      exact finite_load.2 (hdecode.list.required hj hfields (by simp) his)
    · cases h
  · cases h

theorem yields_store (hdecode : Yields Finite decode) : Yields Finite (storeOfJson? decode) := by
  intro j e hj h
  unfold storeOfJson? at h
  split at h
  · split at h
    · next hfields =>
      simp only [Option.bind_eq_bind, Option.bind_eq_some_iff, Option.some.injEq] at h
      obtain ⟨_, _, is, his, v, hv, rfl⟩ := h
      exact finite_store.2 ⟨hdecode.list.required hj hfields (by simp) his,
        hdecode.required hj hfields (by simp) hv⟩
    · cases h
  · cases h

theorem yields_loop (hdecode : Yields Finite decode) : Yields Finite (loopOfJson? decode) := by
  intro j e hj h
  unfold loopOfJson? at h
  split at h
  · next hfields =>
    simp only [Option.bind_eq_bind, Option.bind_eq_some_iff, Option.some.injEq] at h
    obtain ⟨_, _, lo, hlo, n, hn, _, _, body, hbody, rfl⟩ := h
    exact finite_loop.2 ⟨hdecode.required hj hfields (by simp) hlo,
      hdecode.required hj hfields (by simp) hn, hdecode.required hj hfields (by simp) hbody⟩
  · cases h

theorem yields_block (hdecode : Yields Finite decode) : Yields Finite (blockOfJson? decode) := by
  intro j e hj h
  unfold blockOfJson? at h
  split at h
  · next hfields =>
    obtain ⟨ss, hss, rfl⟩ := Option.map_eq_some_iff.1 h
    exact finite_block.2 (hdecode.list.required hj hfields (by simp) hss)
  · cases h

theorem yields_ofJsonWithin (depth : Nat) : Yields Finite (ofJsonWithin? depth) := by
  induction depth with
  | zero =>
      intro j e _ h
      cases h
  | succ depth ih =>
      intro j e hj h
      rw [ofJsonWithin?] at h
      split at h
      case h_2 content hcase =>
        obtain ⟨x, hx, rfl⟩ := Option.map_eq_some_iff.1 h
        have hfinite := yields_float content x (wellFormed_content hj hcase) hx
        simpa [Finite, floats] using hfinite
      case h_6 content hcase => exact yields_binary ih content e (wellFormed_content hj hcase) h
      case h_7 content hcase => exact yields_load ih content e (wellFormed_content hj hcase) h
      case h_8 content hcase => exact yields_store ih content e (wellFormed_content hj hcase) h
      case h_9 content hcase => exact yields_loop ih content e (wellFormed_content hj hcase) h
      case h_10 content hcase => exact yields_block ih content e (wellFormed_content hj hcase) h
      case h_11 => cases h
      -- The other cases hold no numbers with a fraction.
      all_goals
        obtain ⟨_, _, rfl⟩ := Option.map_eq_some_iff.1 h
        simp [Finite, floats]

theorem yields_ofJson : Yields Finite ofJson? :=
  fun j => yields_ofJsonWithin j.depth j

end Expr

theorem Program.yields_ofJson : Serial.Yields Program.Finite Program.ofJson? := by
  intro j p hj h
  unfold Program.ofJson? at h
  split at h
  · next hfields =>
    obtain ⟨roots, hroots, rfl⟩ := Option.map_eq_some_iff.1 h
    exact Expr.yields_ofJson.list.required hj hfields (by simp) hroots
  · cases h

/-! ## Reading and writing again -/

namespace Serial

variable {α : Type}

/-- What writing makes of the value that a document stands for. -/
def rewrite (encode : α → Json) (decode : Json → Option α) (j : Json) : Option Json :=
  (decode j).map encode

/-- What has been read and written once stays as it is when it is read and written again. -/
def Settles (encode : α → Json) (decode : Json → Option α) : Prop :=
  ∀ j k, j.WellFormed → rewrite encode decode j = some k → rewrite encode decode k = some k

theorem Yields.settles {P : α → Prop} {encode : α → Json} {decode : Json → Option α}
    (hyields : Yields P decode) (hback : ∀ a, P a → decode (encode a) = some a) :
    Settles encode decode := by
  intro j k hj h
  obtain ⟨a, ha, rfl⟩ := Option.map_eq_some_iff.1 h
  rw [rewrite, hback a (hyields j a hj ha), Option.map_some]

theorem settles {encode : α → Json} {decode : Json → Option α}
    (hback : ∀ a, decode (encode a) = some a) : Settles encode decode :=
  Yields.settles (P := fun _ => True) (fun _ _ _ _ => trivial) fun a _ => hback a

/-- Every value whose floating-point constants are finite reads back from its document as itself,
and the first writing of what a document stands for settles it. -/
theorem documents_read_back :
    (∀ d : Dim, Dim.ofJson? d.toJson = some d) ∧
    (∀ s : Shape, Shape.ofJson? s.toJson = some s) ∧
    (∀ t : Tensor, Tensor.ofJson? t.toJson = some t) ∧
    (∀ e : Expr, e.Finite → Expr.ofJson? e.toJson = some e) ∧
    (∀ p : Program, p.Finite → Program.ofJson? p.toJson = some p) ∧
    (∀ m : LoopMarks, LoopMarks.ofJson? m.toJson = some m) ∧
    (∀ o : StrategyOptions, StrategyOptions.ofJson? o.toJson = some o) ∧
    (∀ o : Options, Options.ofJson? o.toJson = some o) ∧
    Settles Dim.toJson Dim.ofJson? ∧ Settles Shape.toJson Shape.ofJson? ∧
    Settles Tensor.toJson Tensor.ofJson? ∧ Settles Expr.toJson Expr.ofJson? ∧
    Settles Program.toJson Program.ofJson? ∧ Settles LoopMarks.toJson LoopMarks.ofJson? ∧
    Settles StrategyOptions.toJson StrategyOptions.ofJson? ∧
    Settles Options.toJson Options.ofJson? := by
  refine ⟨Dim.ofJson?_toJson, Shape.ofJson?_toJson, Tensor.ofJson?_toJson,
    fun e => Expr.ofJson?_toJson, fun p => Program.ofJson?_toJson, LoopMarks.ofJson?_toJson,
    StrategyOptions.ofJson?_toJson, Options.ofJson?_toJson, settles Dim.ofJson?_toJson,
    settles Shape.ofJson?_toJson, settles Tensor.ofJson?_toJson, ?_, ?_,
    settles LoopMarks.ofJson?_toJson, settles StrategyOptions.ofJson?_toJson,
    settles Options.ofJson?_toJson⟩
  · exact Expr.yields_ofJson.settles fun e => Expr.ofJson?_toJson
  · exact Program.yields_ofJson.settles fun p => Program.ofJson?_toJson

/-- A loop with a mark that has no name, over a store of a scaled element. -/
def scaling : Expr :=
  .loop "i" (.int 0) (.var "n") ⟨6⟩ (.store "y" [.var "i"]
    (.binary .mul (.float ⟨0x3fe0000000000000⟩) (.load "x" [.var "i"])))

/-- One, written as a whole number. -/
def wholeOne : Json :=
  tagged "FloatImm" (.int 1)

theorem documents_read_back_scaling :
    scaling.Finite ∧ Expr.ofJson? scaling.toJson = some scaling ∧ wholeOne.WellFormed ∧
      rewrite Expr.toJson Expr.ofJson? wholeOne = some (tagged "FloatImm" (.float .one)) ∧
      rewrite Expr.toJson Expr.ofJson? (tagged "FloatImm" (.float .one)) =
        some (tagged "FloatImm" (.float .one)) := by
  obtain ⟨_, _, _, hback, _, _, _, _, _, _, _, hsettles, _⟩ := documents_read_back
  have hfinite : scaling.Finite := by
    unfold Expr.Finite
    decide
  have hwhole : wholeOne.WellFormed :=
    .object (List.forall_mem_singleton.2 (.int (by decide) (by decide)))
  have hrewrite : rewrite Expr.toJson Expr.ofJson? wholeOne =
      some (tagged "FloatImm" (.float .one)) := by
    rfl
  exact ⟨hfinite, hback scaling hfinite, hwhole, hrewrite, hsettles wholeOne _ hwhole hrewrite⟩

end Serial

end Reductions
