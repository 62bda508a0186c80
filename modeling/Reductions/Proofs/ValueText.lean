import Reductions.Proofs.Tokens

/-!
# Reading values back

The text of a value determines the value and where it ends. A value is a token
alone, or a token with something in brackets behind it. So the first token is
the same in two equal texts, and the bracket behind it says which kind of value
it begins.
-/

namespace Reductions

namespace Text

inductive FollowsValue : List Char → Prop where
  | blank (rest : List Char) : FollowsValue (' ' :: rest)
  | comma (rest : List Char) : FollowsValue (',' :: rest)
  | parenthesis (rest : List Char) : FollowsValue (')' :: rest)
  | bracket (rest : List Char) : FollowsValue (']' :: rest)
  | newline (rest : List Char) : FollowsValue ('\n' :: rest)
  | range (rest : List Char) : FollowsValue ('.' :: '.' :: rest)

theorem FollowsValue.endsToken {rest : List Char} (h : FollowsValue rest) : EndsToken rest := by
  cases h with
  | range rest => exact endsToken_points rest
  | _ => exact endsToken_cons (by decide) _

theorem FollowsValue.head_ne {c : Char} {rest : List Char} (h : FollowsValue (c :: rest)) :
    c ≠ '(' ∧ c ≠ '[' := by
  cases h <;> decide

end Text

namespace BinaryOp

def word (op : BinaryOp) : List Char :=
  if op.isFunction then op.symbol.toList else []

def between (op : BinaryOp) : List Char :=
  if op.isFunction then [',', ' '] else ' ' :: op.symbol.toList ++ [' ']

theorem followsValue_between (op : BinaryOp) (rest : List Char) :
    Text.FollowsValue (op.between ++ rest) := by
  cases op
  case max | min => exact .comma _
  all_goals exact .blank _

theorem isToken_word (op : BinaryOp) : Text.IsToken op.word := by
  have hplain : op.word.all Text.inToken = true := by
    cases op <;> decide
  refine ⟨List.all_eq_true.1 hplain, digitAfterPoint_of_not_mem ?_⟩
  cases op <;> decide

theorem symbol_inj {op op' : BinaryOp} (h : op.symbol = op'.symbol) : op = op' := by
  have hsymbols : (all.map symbol).Nodup := by decide
  exact List.inj_on_of_nodup_map hsymbols op.mem_all op'.mem_all h

theorem symbol_ne_nil (op : BinaryOp) : op.symbol.toList ≠ [] := by
  cases op <;> decide

theorem not_mem_symbol (op : BinaryOp) : ' ' ∉ op.symbol.toList := by
  cases op <;> decide

/-- An operation is known from the texts before and behind its first operand. -/
theorem eq_of_word_eq {op op' : BinaryOp} (hword : op.word = op'.word) {rest rest' : List Char}
    (h : op.between ++ rest = op'.between ++ rest') : op = op' ∧ rest = rest' := by
  rw [word, word] at hword
  rw [between, between] at h
  cases hfun : op.isFunction <;> cases hfun' : op'.isFunction <;> rw [hfun, hfun'] at hword h
  · have hsymbols : op.symbol.toList ++ ' ' :: rest = op'.symbol.toList ++ ' ' :: rest' := by
      simpa using h
    obtain ⟨hsymbol, hrest⟩ :=
      Text.append_cons_inj (not_mem_symbol op) (not_mem_symbol op') hsymbols
    exact ⟨symbol_inj (String.toList_inj.1 hsymbol), hrest⟩
  · exact absurd hword.symm (symbol_ne_nil op')
  · exact absurd hword (symbol_ne_nil op)
  · exact ⟨symbol_inj (String.toList_inj.1 hword), List.append_cancel_left h⟩

end BinaryOp

namespace Expr

/-- The values whose names are identifiers and whose doubles are numbers. No tensor is
meant as a whole, and no statement stands in one. -/
inductive LegibleValue : Expr → Prop where
  | atom {e : Expr} (h : IsAtom e) : LegibleValue e
  | binary (op : BinaryOp) {l r : Expr} (hl : LegibleValue l) (hr : LegibleValue r) :
      LegibleValue (.binary op l r)
  | load {tensor : String} {is : List Expr} (htensor : Text.isName tensor = true)
      (his : ∀ i ∈ is, LegibleValue i) : LegibleValue (.load tensor is)

/-! ## A token and what is in brackets -/

def word : Expr → List Char
  | binary op _ _ => op.word
  | load tensor _ => tensor.toList
  | e => e.writeValue

def brackets : Expr → List Char
  | binary op l r => '(' :: l.writeValue ++ op.between ++ r.writeValue ++ [')']
  | load _ is => Text.bracketed (writeValues is)
  | _ => []

theorem writeValue_eq (e : Expr) : e.writeValue = e.word ++ e.brackets := by
  cases e with
  | binary op l r =>
      rw [word, brackets, writeValue, BinaryOp.word, BinaryOp.between]
      split <;> simp
  | load tensor is => rfl
  | _ => exact (List.append_nil _).symm

theorem IsAtom.word_eq {e : Expr} (h : IsAtom e) : e.word = e.writeValue := by
  cases h <;> rfl

theorem IsAtom.brackets_eq {e : Expr} (h : IsAtom e) : e.brackets = [] := by
  cases h <;> rfl

theorem LegibleValue.isToken_word {e : Expr} (h : LegibleValue e) : Text.IsToken e.word := by
  cases h with
  | atom h => exact h.word_eq ▸ h.isToken
  | binary op hl hr => exact op.isToken_word
  | load htensor his => exact Text.isToken_of_isName htensor

theorem LegibleValue.endsToken_brackets {e : Expr} (h : LegibleValue e) {rest : List Char}
    (hrest : Text.FollowsValue rest) : Text.EndsToken (e.brackets ++ rest) := by
  cases h with
  | atom h => exact h.brackets_eq ▸ hrest.endsToken
  | binary op hl hr => exact Text.endsToken_cons rfl _
  | load htensor his => exact Text.endsToken_cons rfl _

theorem LegibleValue.split_word {e e' : Expr} (h : LegibleValue e) (h' : LegibleValue e')
    {rest rest' : List Char} (hrest : Text.FollowsValue rest) (hrest' : Text.FollowsValue rest')
    (heq : e.writeValue ++ rest = e'.writeValue ++ rest') :
    e.word = e'.word ∧ e.brackets ++ rest = e'.brackets ++ rest' := by
  rw [writeValue_eq, writeValue_eq, List.append_assoc, List.append_assoc] at heq
  exact h.isToken_word.unique h'.isToken_word (h.endsToken_brackets hrest)
    (h'.endsToken_brackets hrest') heq

theorem LegibleValue.head {e : Expr} (h : LegibleValue e) :
    ∃ c tail, e.writeValue = c :: tail ∧ (Text.inToken c = true ∨ c = '(') := by
  have htoken := h.isToken_word.plain
  rw [writeValue_eq]
  cases hword : e.word with
  | cons c tail => exact ⟨c, tail ++ e.brackets, rfl, .inl (htoken c (hword ▸ List.mem_cons_self))⟩
  | nil =>
      cases h with
      | atom h => exact absurd (h.word_eq ▸ hword) h.writeValue_ne_nil
      | binary op hl hr => exact ⟨'(', _, rfl, .inr rfl⟩
      | load htensor his =>
          obtain ⟨c, tail, hhead, _⟩ := Text.head_of_isName htensor
          rw [word, hhead] at hword
          cases hword

theorem LegibleValue.head_ne {e : Expr} (h : LegibleValue e) {c : Char} {rest tail : List Char}
    (hc : Text.inToken c = false) (hopen : c ≠ '(') : e.writeValue ++ rest ≠ c :: tail := by
  obtain ⟨d, front, hhead, hd⟩ := h.head
  rw [hhead]
  intro heq
  rw [(List.cons.inj heq).1, hc] at hd
  exact hd.elim Bool.false_ne_true hopen

/-! ## Lists of values -/

def listRest : List Expr → List Char
  | [] => [']']
  | e :: es => ',' :: ' ' :: e.writeValue ++ listRest es

theorem bracketed_cons (e : Expr) (es : List Expr) :
    Text.bracketed (writeValues (e :: es)) = '[' :: e.writeValue ++ listRest es := by
  induction es generalizing e with
  | nil => simp [Text.bracketed, writeValues, Text.join, listRest]
  | cons e' es ih =>
      have hrest : Text.join [',', ' '] (writeValues (e' :: es)) ++ [']'] =
          e'.writeValue ++ listRest es := (List.cons.inj (ih e')).2
      simp only [Text.bracketed, writeValues, Text.join, listRest, List.cons_append,
        List.append_assoc, List.nil_append] at hrest ⊢
      rw [hrest]

theorem followsValue_listRest (es : List Expr) (rest : List Char) :
    Text.FollowsValue (listRest es ++ rest) := by
  cases es with
  | nil => exact .bracket _
  | cons e es => exact .comma _

/-- The text of `e` in front of another text determines `e` and the other text. -/
def ReadsBack (e : Expr) : Prop :=
  ∀ (e' : Expr) (rest rest' : List Char), LegibleValue e' → Text.FollowsValue rest →
    Text.FollowsValue rest' → e.writeValue ++ rest = e'.writeValue ++ rest' →
      e = e' ∧ rest = rest'

theorem listRest_inj {es es' : List Expr} (h : ∀ e ∈ es, ReadsBack e)
    (h' : ∀ e ∈ es', LegibleValue e) {rest rest' : List Char}
    (heq : listRest es ++ rest = listRest es' ++ rest') : es = es' ∧ rest = rest' := by
  induction es generalizing es' with
  | nil =>
      cases es' with
      | nil => exact ⟨rfl, (List.cons.inj heq).2⟩
      | cons e' es' => exact absurd (List.cons.inj heq).1 (by decide)
  | cons e es ih =>
      cases es' with
      | nil => exact absurd (List.cons.inj heq).1 (by decide)
      | cons e' es' =>
          have htail : e.writeValue ++ (listRest es ++ rest) =
              e'.writeValue ++ (listRest es' ++ rest') := by
            simpa [listRest] using heq
          obtain ⟨rfl, hrest⟩ := h e List.mem_cons_self e' _ _ (h' e' List.mem_cons_self)
            (followsValue_listRest es rest) (followsValue_listRest es' rest') htail
          obtain ⟨rfl, hend⟩ := ih (fun e he => h e (List.mem_cons_of_mem _ he))
            (fun e he => h' e (List.mem_cons_of_mem _ he)) hrest
          exact ⟨rfl, hend⟩

theorem bracketed_inj {es es' : List Expr} (hes : ∀ e ∈ es, LegibleValue e)
    (h : ∀ e ∈ es, ReadsBack e) (h' : ∀ e ∈ es', LegibleValue e) {rest rest' : List Char}
    (heq : Text.bracketed (writeValues es) ++ rest = Text.bracketed (writeValues es') ++ rest') :
    es = es' ∧ rest = rest' := by
  cases es with
  | nil =>
      cases es' with
      | nil => exact ⟨rfl, List.append_cancel_left heq⟩
      | cons e' es' =>
          rw [bracketed_cons, List.append_assoc] at heq
          exact absurd (List.cons.inj heq).2.symm
            ((h' e' List.mem_cons_self).head_ne (by decide) (by decide))
  | cons e es =>
      rw [bracketed_cons, List.append_assoc] at heq
      cases es' with
      | nil =>
          exact absurd (List.cons.inj heq).2
            ((hes e List.mem_cons_self).head_ne (by decide) (by decide))
      | cons e' es' =>
          rw [bracketed_cons, List.append_assoc] at heq
          obtain ⟨rfl, hrest⟩ := h e List.mem_cons_self e' _ _ (h' e' List.mem_cons_self)
            (followsValue_listRest es rest) (followsValue_listRest es' rest')
            (List.cons.inj heq).2
          obtain ⟨rfl, hend⟩ := listRest_inj (fun e he => h e (List.mem_cons_of_mem _ he))
            (fun e he => h' e (List.mem_cons_of_mem _ he)) hrest
          exact ⟨rfl, hend⟩

/-! ## Values -/

theorem LegibleValue.readsBack {e : Expr} (h : LegibleValue e) : ReadsBack e := by
  induction h with
  | @atom e h =>
      intro e' rest rest' h' hrest hrest' heq
      obtain ⟨hword, hbrackets⟩ := (LegibleValue.atom h).split_word h' hrest hrest' heq
      -- No bracket follows an atom, so the other value is one too.
      rw [h.brackets_eq, List.nil_append] at hbrackets
      cases h' with
      | atom h' =>
          rw [h.word_eq, h'.word_eq] at hword
          rw [h'.brackets_eq, List.nil_append] at hbrackets
          exact ⟨h.eq_of_writeValue_eq h' hword, hbrackets⟩
      | binary op hl hr =>
          subst hbrackets
          exact absurd rfl hrest.head_ne.1
      | load htensor his =>
          subst hbrackets
          exact absurd rfl hrest.head_ne.2
  | @binary op l r hl hr ihl ihr =>
      intro e' rest rest' h' hrest hrest' heq
      obtain ⟨hword, hbrackets⟩ := (LegibleValue.binary op hl hr).split_word h' hrest hrest' heq
      cases h' with
      | atom h' =>
          rw [h'.brackets_eq, List.nil_append] at hbrackets
          subst hbrackets
          exact absurd rfl hrest'.head_ne.1
      | @binary op' l' r' hl' hr' =>
          have hleft : l.writeValue ++ (op.between ++ (r.writeValue ++ ')' :: rest)) =
              l'.writeValue ++ (op'.between ++ (r'.writeValue ++ ')' :: rest')) := by
            simpa [brackets] using hbrackets
          obtain ⟨rfl, hmiddle⟩ := ihl l' _ _ hl' (op.followsValue_between _)
            (op'.followsValue_between _) hleft
          obtain ⟨rfl, hright⟩ := BinaryOp.eq_of_word_eq hword hmiddle
          obtain ⟨rfl, hclose⟩ := ihr r' _ _ hr' (.parenthesis _) (.parenthesis _) hright
          exact ⟨rfl, (List.cons.inj hclose).2⟩
      | load htensor his => exact absurd (List.cons.inj hbrackets).1 (by decide)
  | @load tensor is htensor his ih =>
      intro e' rest rest' h' hrest hrest' heq
      obtain ⟨hword, hbrackets⟩ := (LegibleValue.load htensor his).split_word h' hrest hrest' heq
      cases h' with
      | atom h' =>
          rw [h'.brackets_eq, List.nil_append] at hbrackets
          subst hbrackets
          exact absurd rfl hrest'.head_ne.2
      | binary op hl hr => exact absurd (List.cons.inj hbrackets).1 (by decide)
      | @load tensor' is' htensor' his' =>
          obtain rfl : tensor = tensor' := String.toList_inj.1 hword
          obtain ⟨rfl, hrest⟩ := bracketed_inj his ih his' hbrackets
          exact ⟨rfl, hrest⟩

end Expr

end Reductions
