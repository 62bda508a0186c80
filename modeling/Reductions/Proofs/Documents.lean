import Mathlib.Data.List.Nodup
import Reductions.Proofs.MarksText
import Reductions.Proofs.Occurrences
import Reductions.Proofs.WellFormedJson
import Reductions.Proofs.WholeDoubles
import Reductions.Serial.Expr
import Reductions.Serial.Options

/-!
# Reading documents back
-/

namespace Reductions

namespace Serial

variable {α : Type}

theorem unit?_string {all : List α} {label : α → String} (hlabels : (all.map label).Nodup) {a : α}
    (h : a ∈ all) : unit? all label (.string (label a)) = some a := by
  have hfind : all.find? (fun b => label b == label a) = some a := by
    have hsome : (all.find? fun b => label b == label a).isSome := by
      rw [List.find?_isSome]
      exact ⟨a, h, beq_self_eq_true _⟩
    obtain ⟨b, hb⟩ := Option.isSome_iff_exists.1 hsome
    have hlabel : label b = label a := by simpa using List.find?_some hb
    rw [hb, List.inj_on_of_nodup_map hlabels (List.mem_of_find?_eq_some hb) h hlabel]
  simpa [unit?, case?, isVoid] using hfind

@[simp] theorem case?_tagged (name : String) (content : Json) :
    case? (tagged name content) = some (name, some content) := rfl

@[simp] theorem fields?_object (names : List String) (members : List (String × Json)) :
    fields? names (.object members) = some (names.map (Json.member? members)) := rfl

@[simp] theorem required_some (decode : Json → Option α) (j : Json) :
    required decode (some j) = decode j := rfl

@[simp] theorem defaulted_some (decode : Json → Option α) (default : α) (j : Json) :
    defaulted decode default (some j) = decode j := rfl

end Serial

@[simp] theorem Json.member?_cons (members : List (String × Json)) (name key : String) (j : Json) :
    Json.member? ((key, j) :: members) name =
      if name = key then some j else Json.member? members name := by
  by_cases h : name = key
  · simp [Json.member?, h]
  · have hkey : (name == key) = false := beq_eq_false_iff_ne.2 h
    simp [Json.member?, List.lookup_cons, hkey, h]

@[simp] theorem ElementType.ofJson?_toJson (t : ElementType) :
    ElementType.ofJson? t.toJson = some t :=
  Serial.unit?_string (by decide) t.mem_all

@[simp] theorem Dim.ofJson?_toJson (d : Dim) : Dim.ofJson? d.toJson = some d := by
  cases d with
  | fixed size => simp [Dim.toJson, Dim.ofJson?, Serial.uint64?_ofNat]
  | symbol name => simp [Dim.toJson, Dim.ofJson?, Json.asString?]

@[simp] theorem Shape.ofJson?_toJson (s : Shape) : Shape.ofJson? s.toJson = some s := by
  simp [Shape.toJson, Shape.ofJson?, Serial.list?_ofList s.dims fun d _ => d.ofJson?_toJson]

@[simp] theorem ReductionKind.ofJson?_toJson (kind : ReductionKind) :
    ReductionKind.ofJson? kind.toJson = some kind :=
  Serial.unit?_string (by decide) kind.mem_table

namespace Tensor

theorem ofJsonWithin?_jsonWith (depth : Nat) (header : TensorHeader) (producer : Json) :
    ofJsonWithin? (depth + 1) (jsonWith header producer) =
      ofProducer? (ofJsonWithin? depth) header producer := by
  simp [ofJsonWithin?, jsonWith, fieldNames, Json.asString?]

def producerJson (kind : ReductionKind) (source : Json) (axes : List UInt64) (keepdim : Bool) :
    Json :=
  Serial.tagged "Reduce" (.object [("kind", kind.toJson), ("input", source),
    ("axes", Serial.ofList (fun a => .int a.toNat) axes), ("keepdim", .bool keepdim)])

theorem ofProducer?_producerJson {decode : Json → Option Tensor} {source : Tensor}
    (hsource : decode source.toJson = some source) (header : TensorHeader) (kind : ReductionKind)
    (axes : List UInt64) (keepdim : Bool) :
    ofProducer? decode header (producerJson kind source.toJson axes keepdim) =
      some (reduction header kind source axes keepdim) := by
  have haxes : Serial.list? Serial.uint64? (Serial.ofList (fun a => .int a.toNat) axes) = some axes :=
    Serial.list?_ofList axes fun a _ => Serial.uint64?_ofNat a
  simp [ofProducer?, producerJson, reductionFieldNames, hsource, haxes, Json.asBool?]

theorem ofJsonWithin?_toJson (t : Tensor) {depth : Nat} (h : t.toJson.depth ≤ depth) :
    ofJsonWithin? depth t.toJson = some t := by
  induction depth generalizing t with
  | zero =>
      have hpos := t.toJson.depth_pos
      omega
  | succ depth ih =>
      cases t with
      | input header =>
          rw [toJson, ofJsonWithin?_jsonWith]
          rfl
      | reduction header kind source axes keepdim =>
          have hdepth : source.toJson.depth ≤ depth := by
            simp only [toJson, jsonWith, Serial.tagged, Json.depth, Json.depthMembers] at h
            omega
          rw [toJson, ofJsonWithin?_jsonWith]
          exact ofProducer?_producerJson (ih source hdepth) header kind axes keepdim

@[simp] theorem ofJson?_toJson (t : Tensor) : ofJson? t.toJson = some t :=
  ofJsonWithin?_toJson t (Nat.le_refl _)

end Tensor

/-! ## Trees -/

@[simp] theorem BinaryOp.ofJson?_toJson (op : BinaryOp) : BinaryOp.ofJson? op.toJson = some op :=
  Serial.unit?_string (by decide) op.mem_all

@[simp] theorem LoopMarks.ofJson?_toJson (m : LoopMarks) : LoopMarks.ofJson? m.toJson = some m := by
  simp [LoopMarks.toJson, LoopMarks.ofJson?, Json.asString?, m.ofText?_write]

namespace Expr

def Finite (e : Expr) : Prop :=
  ∀ x ∈ e.floats, x.isFinite = true

@[simp] theorem variableOfJson?_variableToJson (name : String) :
    variableOfJson? (variableToJson name) = some name := by
  simp [variableOfJson?, variableToJson, Json.asString?]

theorem finite_binary {op : BinaryOp} {lhs rhs : Expr} :
    (binary op lhs rhs).Finite ↔ lhs.Finite ∧ rhs.Finite := by
  simp [Finite, floats, or_imp, forall_and]

theorem finite_floatsAll {es : List Expr} :
    (∀ x ∈ floatsAll es, x.isFinite = true) ↔ ∀ e ∈ es, e.Finite := by
  simp only [Finite, floatsAll_eq, List.mem_flatMap]
  exact ⟨fun h e he x hx => h x ⟨e, he, hx⟩, fun h x ⟨e, he, hx⟩ => h e he x hx⟩

theorem finite_load {t : String} {is : List Expr} :
    (load t is).Finite ↔ ∀ i ∈ is, i.Finite :=
  finite_floatsAll

theorem finite_block {ss : List Expr} : (block ss).Finite ↔ ∀ s ∈ ss, s.Finite :=
  finite_floatsAll

theorem finite_store {t : String} {is : List Expr} {value : Expr} :
    (store t is value).Finite ↔ (∀ i ∈ is, i.Finite) ∧ value.Finite := by
  rw [← finite_floatsAll]
  simp [Finite, floats, or_imp, forall_and]

theorem finite_loop {v : String} {min extent body : Expr} {marks : LoopMarks} :
    (loop v min extent marks body).Finite ↔ min.Finite ∧ extent.Finite ∧ body.Finite := by
  simp [Finite, floats, or_imp, forall_and]

theorem list?_toJsonAll {decode : Json → Option Expr} {es : List Expr}
    (h : ∀ e ∈ es, decode e.toJson = some e) :
    Serial.list? decode (.array (toJsonAll es)) = some es := by
  rw [toJsonAll_eq]
  exact Serial.list?_ofList es h

theorem depth_toJson_le {e : Expr} {es : List Expr} (h : e ∈ es) :
    e.toJson.depth ≤ Json.depthAll (toJsonAll es) := by
  rw [toJsonAll_eq]
  exact Json.depth_le_depthAll (List.mem_map_of_mem h)

theorem ofJsonWithin?_toJson (e : Expr) (hfinite : e.Finite) {depth : Nat}
    (h : e.toJson.depth ≤ depth) : ofJsonWithin? depth e.toJson = some e := by
  induction depth generalizing e with
  | zero =>
      have hpos := e.toJson.depth_pos
      omega
  | succ depth ih =>
      -- The parts of the tree are deeper down by one level at least, so they can all be read.
      have hlist (es : List Expr) (hes : ∀ e ∈ es, e.Finite)
          (hdepth : Json.depthAll (toJsonAll es) ≤ depth) :
          Serial.list? (ofJsonWithin? depth) (.array (toJsonAll es)) = some es :=
        list?_toJsonAll fun e he => ih e (hes e he) (Nat.le_trans (depth_toJson_le he) hdepth)
      cases e with
      | int n => simp [ofJsonWithin?, toJson, Serial.int64?_ofInt]
      | float x =>
          have hx : x.isFinite = true := hfinite x (by simp [floats])
          simp [ofJsonWithin?, toJson, Serial.ofFloat, Serial.float?, hx]
      | bool b => simp [ofJsonWithin?, toJson, Json.asBool?]
      | var v => simp [ofJsonWithin?, toJson]
      | handle t => simp [ofJsonWithin?, toJson]
      | binary op lhs rhs =>
          obtain ⟨hl, hr⟩ := finite_binary.1 hfinite
          simp only [toJson, Serial.tagged, Json.depth, Json.depthAll, Json.depthMembers] at h
          have hlhs := ih lhs hl (by omega)
          have hrhs := ih rhs hr (by omega)
          simp [ofJsonWithin?, toJson, binaryOfJson?, hlhs, hrhs]
      | load t is =>
          simp only [toJson, Serial.tagged, Json.depth, Json.depthMembers] at h
          have his := hlist is (finite_load.1 hfinite) (by omega)
          simp [ofJsonWithin?, toJson, loadOfJson?, Json.asString?, his]
      | store t is value =>
          obtain ⟨hi, hv⟩ := finite_store.1 hfinite
          simp only [toJson, Serial.tagged, Json.depth, Json.depthMembers] at h
          have his := hlist is hi (by omega)
          have hvalue := ih value hv (by omega)
          simp [ofJsonWithin?, toJson, storeOfJson?, Json.asString?, his, hvalue]
      | loop v min extent marks body =>
          obtain ⟨hm, he, hb⟩ := finite_loop.1 hfinite
          simp only [toJson, Serial.tagged, Json.depth, Json.depthMembers] at h
          have hmin := ih min hm (by omega)
          have hextent := ih extent he (by omega)
          have hbody := ih body hb (by omega)
          simp [ofJsonWithin?, toJson, loopOfJson?, hmin, hextent, hbody]
      | block ss =>
          simp only [toJson, Serial.tagged, Json.depth, Json.depthMembers] at h
          have hss := hlist ss (finite_block.1 hfinite) (by omega)
          simp [ofJsonWithin?, toJson, blockOfJson?, hss]

theorem ofJson?_toJson {e : Expr} (h : e.Finite) : ofJson? e.toJson = some e :=
  ofJsonWithin?_toJson e h (Nat.le_refl _)

end Expr

namespace Program

def Finite (p : Program) : Prop :=
  ∀ root ∈ p.roots, root.Finite

theorem ofJson?_toJson {p : Program} (h : p.Finite) : ofJson? p.toJson = some p := by
  have hroots : Serial.list? Expr.ofJson? (Serial.ofList Expr.toJson p.roots) = some p.roots :=
    Serial.list?_ofList p.roots fun root hroot => Expr.ofJson?_toJson (h root hroot)
  simp [toJson, ofJson?, hroots]

end Program

/-! ## Settings -/

@[simp] theorem AxisBound.ofJson?_toJson (bound : AxisBound) :
    AxisBound.ofJson? bound.toJson = some bound :=
  Serial.unit?_string (by decide) bound.mem_all

@[simp] theorem StrategyOptions.ofJson?_toJson (o : StrategyOptions) :
    StrategyOptions.ofJson? o.toJson = some o := by
  simp [StrategyOptions.toJson, StrategyOptions.ofJson?, StrategyOptions.fieldNames,
    Serial.uint64?_ofNat, Serial.uint32?_ofNat, Serial.int32?_ofInt]

@[simp] theorem Options.targetOfJson?_targetToJson (target : Option String) :
    Options.targetOfJson? (Options.targetToJson target) = some target := by
  cases target <;> rfl

@[simp] theorem Options.ofJson?_toJson (o : Options) : Options.ofJson? o.toJson = some o := by
  simp [Options.toJson, Options.ofJson?]

end Reductions
