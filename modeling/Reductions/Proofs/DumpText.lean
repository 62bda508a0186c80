import Reductions.Proofs.ValueText

/-!
# Reading dumps back

The dump of a tree determines it, but for one thing: a loop with a block for its
body and a loop with the only statement of that block for its body are written
alike. Each line begins with a token, with a brace or with the word `for`, and
the blanks before a closing brace are fewer than those before the statements
that it ends.
-/

namespace Reductions

namespace LoopMarks

theorem followsValue_writeHead (m : LoopMarks) (rest : List Char) :
    Text.FollowsValue (m.writeHead ++ ' ' :: rest) := by
  rw [writeHead]
  split
  · exact .blank _
  · exact .blank _

theorem writeHead_inj {m m' : LoopMarks} {rest rest' : List Char}
    (h : m.writeHead ++ ' ' :: '\x7b' :: rest = m'.writeHead ++ ' ' :: '\x7b' :: rest') :
    m = m' ∧ rest = rest' := by
  rw [writeHead, writeHead] at h
  split at h
  · next hm =>
    split at h
    · next hm' =>
      obtain rfl := hm
      exact ⟨hm'.symm, by simpa using h⟩
    · exact absurd (List.cons.inj (List.cons.inj h).2).1 (by decide)
  · split at h
    · exact absurd (List.cons.inj (List.cons.inj h).2).1 (by decide)
    · have hmarks : m.write ++ ')' :: ' ' :: '\x7b' :: rest =
          m'.write ++ ')' :: ' ' :: '\x7b' :: rest' := by
        simpa using h
      obtain ⟨hwrite, hrest⟩ :=
        Text.append_cons_inj (not_mem_write m) (not_mem_write m') hmarks
      exact ⟨write_inj hwrite, by simpa using hrest⟩

end LoopMarks

namespace Expr

/-- Trees with statements in statement position only, whose names are identifiers and
whose doubles are numbers. No tensor is meant as a whole. -/
inductive Legible : Expr → Prop where
  | value {e : Expr} (h : LegibleValue e) : Legible e
  | store {tensor : String} {is : List Expr} {value : Expr} (htensor : Text.isName tensor = true)
      (his : ∀ i ∈ is, LegibleValue i) (hvalue : LegibleValue value) :
      Legible (.store tensor is value)
  | loop {v : String} {lo n : Expr} {marks : LoopMarks} {body : Expr}
      (hv : Text.isName v = true) (hlo : LegibleValue lo) (hn : LegibleValue n)
      (hbody : Legible body) : Legible (.loop v lo n marks body)
  | block {ss : List Expr} (hss : ∀ s ∈ ss, Legible s) : Legible (.block ss)

mutual

/-- The tree with every loop body made a block: a body that is none becomes the only
statement of one. -/
def blockBodies : Expr → Expr
  | loop v lo n marks body => loop v lo n marks (block body.blockBodies.statements)
  | block ss => block (blockBodiesAll ss)
  | e => e

def blockBodiesAll : List Expr → List Expr
  | [] => []
  | s :: ss => s.blockBodies :: blockBodiesAll ss

end

theorem blockBodiesAll_eq (ss : List Expr) : blockBodiesAll ss = ss.map blockBodies := by
  induction ss with
  | nil => rfl
  | cons s ss ih => rw [blockBodiesAll, ih, List.map_cons]

theorem statements_blockBodies (e : Expr) :
    e.blockBodies.statements = e.statements.map blockBodies := by
  cases e with
  | block ss => exact blockBodiesAll_eq ss
  | _ => rfl

theorem LegibleValue.statements_eq {e : Expr} (h : LegibleValue e) : e.statements = [e] := by
  cases h with
  | atom h => cases h <;> rfl
  | binary op hl hr => rfl
  | load htensor his => rfl

theorem Legible.of_mem_statements {e : Expr} (h : Legible e) :
    ∀ s ∈ e.statements, Legible s := by
  intro s hs
  cases h with
  | value h =>
      rw [h.statements_eq, List.mem_singleton] at hs
      exact hs ▸ .value h
  | store htensor his hvalue => exact List.mem_singleton.1 hs ▸ .store htensor his hvalue
  | loop hv hlo hn hbody => exact List.mem_singleton.1 hs ▸ .loop hv hlo hn hbody
  | block hss => exact hss s hs

/-! ## Lines -/

/-- The lines of a statement without the blanks before the first, and `rest` behind them. -/
def linesThen (depth : Nat) (rest : List Char) : Expr → List Char
  | loop v lo n marks body =>
    'f' :: 'o' :: 'r' :: ' ' :: (v.toList ++ ' ' :: 'i' :: 'n' :: ' ' :: (lo.writeValue ++
      '.' :: '.' :: '+' :: (n.writeValue ++ (marks.writeHead ++ ' ' :: '\x7b' :: '\n' ::
        (writeAllAt (depth + 1) body.statements ++ (indent depth ++ '\x7d' :: '\n' :: rest))))))
  | block ss =>
    '\x7b' :: '\n' :: (writeAllAt (depth + 1) ss ++ (indent depth ++ '\x7d' :: '\n' :: rest))
  | store tensor is value =>
    (load tensor is).writeValue ++ ' ' :: '=' :: ' ' :: (value.writeValue ++ '\n' :: rest)
  | e => e.writeValue ++ '\n' :: rest

theorem writeAt_true (depth : Nat) (e : Expr) :
    e.writeAt true depth = writeAllAt depth e.statements := by
  cases e with
  | block ss => rfl
  | _ => exact (List.append_nil _).symm

theorem writeLoopHead_append (v : String) (lo n : Expr) (marks : LoopMarks)
    (rest : List Char) : writeLoopHead v lo n marks ++ rest =
      'f' :: 'o' :: 'r' :: ' ' :: (v.toList ++ ' ' :: 'i' :: 'n' :: ' ' :: (lo.writeValue ++
        '.' :: '.' :: '+' :: (n.writeValue ++ (marks.writeHead ++ ' ' :: '\x7b' :: rest)))) := by
  have hfor : "for ".toList = ['f', 'o', 'r', ' '] := by decide
  have hin : " in ".toList = [' ', 'i', 'n', ' '] := by decide
  have hrange : "..+".toList = ['.', '.', '+'] := by decide
  unfold writeLoopHead
  simp only [hfor, hin, hrange, List.append_assoc, List.cons_append, List.nil_append]

theorem writeAt_append (depth : Nat) (rest : List Char) (e : Expr) :
    e.writeAt false depth ++ rest = indent depth ++ e.linesThen depth rest := by
  cases e with
  | loop v lo n marks body => simp [writeAt, linesThen, writeAt_true, writeLoopHead_append]
  | block ss => simp [writeAt, linesThen]
  | store tensor is value => simp [writeAt, linesThen, writeValue]
  | _ => simp [writeAt, linesThen]

theorem linesThen_value {e : Expr} (h : LegibleValue e) (depth : Nat) (rest : List Char) :
    e.linesThen depth rest = e.writeValue ++ '\n' :: rest := by
  cases h with
  | atom h => cases h <;> rfl
  | binary op hl hr => rfl
  | load htensor his => rfl

theorem LegibleValue.word_ne_for {e : Expr} (h : LegibleValue e) : e.word ≠ "for".toList := by
  cases h with
  | atom h =>
      rw [h.word_eq]
      intro hfor
      have hsort := h.sortOf_writeValue
      rw [hfor] at hsort
      cases h with
      | @var name hname =>
          obtain rfl : name = "for" := String.toList_inj.1 hfor
          exact absurd hname (by decide)
      | _ => cases hsort
  | binary op hl hr =>
      rw [word]
      cases op <;> decide
  | @load tensor is htensor his =>
      intro hfor
      obtain rfl : tensor = "for" := String.toList_inj.1 hfor
      exact absurd htensor (by decide)

theorem LegibleValue.append_ne_for {e : Expr} (h : LegibleValue e) {rest : List Char}
    (hrest : Text.FollowsValue rest) (tail : List Char) :
    e.writeValue ++ rest ≠ 'f' :: 'o' :: 'r' :: ' ' :: tail := by
  intro heq
  have hfor : Text.IsToken ['f', 'o', 'r'] :=
    ⟨List.all_eq_true.1 (by decide), digitAfterPoint_of_not_mem (by decide)⟩
  rw [writeValue_eq, List.append_assoc] at heq
  have hunique := h.isToken_word.unique hfor (h.endsToken_brackets hrest)
    (Text.endsToken_cons rfl tail) heq
  exact h.word_ne_for hunique.1

/-! ## Statements -/

/-- The lines of `e` in front of another text determine `e`, up to blocks for loop bodies,
and the other text. -/
def Recovers (e : Expr) : Prop :=
  ∀ (e' : Expr) (depth : Nat) (rest rest' : List Char), Legible e' →
    e.linesThen depth rest = e'.linesThen depth rest' →
      e.blockBodies = e'.blockBodies ∧ rest = rest'

theorem indent_succ (depth : Nat) : indent (depth + 1) = indent depth ++ [' ', ' '] := by
  rw [indent, indent, Nat.mul_succ, List.replicate_add]
  rfl

theorem closing_ne_writeAt (depth : Nat) (s : Expr) (rest rest' : List Char) :
    indent depth ++ '\x7d' :: rest ≠ s.writeAt false (depth + 1) ++ rest' := by
  rw [writeAt_append, indent_succ, List.append_assoc]
  intro heq
  exact absurd (List.cons.inj (List.append_cancel_left heq)).1 (by decide)

theorem writeAllAt_inj {ss ss' : List Expr} (h : ∀ s ∈ ss, Recovers s)
    (h' : ∀ s ∈ ss', Legible s) {depth : Nat} {rest rest' : List Char}
    (heq : writeAllAt (depth + 1) ss ++ (indent depth ++ '\x7d' :: '\n' :: rest) =
      writeAllAt (depth + 1) ss' ++ (indent depth ++ '\x7d' :: '\n' :: rest')) :
    ss.map blockBodies = ss'.map blockBodies ∧ rest = rest' := by
  induction ss generalizing ss' with
  | nil =>
      cases ss' with
      | nil =>
          have hclosing := List.append_cancel_left (List.append_cancel_left heq)
          exact ⟨rfl, (List.cons.inj (List.cons.inj hclosing).2).2⟩
      | cons s' ss' =>
          rw [writeAllAt, writeAllAt, List.nil_append, List.append_assoc] at heq
          exact absurd heq (closing_ne_writeAt depth s' _ _)
  | cons s ss ih =>
      rw [writeAllAt, List.append_assoc] at heq
      cases ss' with
      | nil => exact absurd heq.symm (closing_ne_writeAt depth s _ _)
      | cons s' ss' =>
          rw [writeAllAt, List.append_assoc, writeAt_append, writeAt_append] at heq
          obtain ⟨hhead, htail⟩ := h s List.mem_cons_self s' (depth + 1) _ _
            (h' s' List.mem_cons_self) (List.append_cancel_left heq)
          obtain ⟨hrest, hend⟩ := ih (fun t ht => h t (List.mem_cons_of_mem _ ht))
            (fun t ht => h' t (List.mem_cons_of_mem _ ht)) htail
          rw [List.map_cons, List.map_cons, hhead, hrest]
          exact ⟨rfl, hend⟩

theorem recovers_value {e : Expr} (h : LegibleValue e) : Recovers e := by
  intro e' depth rest rest' h' heq
  rw [linesThen_value h] at heq
  cases h' with
  | value h' =>
      rw [linesThen_value h'] at heq
      obtain ⟨rfl, hrest⟩ := h.readsBack _ _ _ h' (.newline _) (.newline _) heq
      exact ⟨rfl, (List.cons.inj hrest).2⟩
  | store htensor his hvalue =>
      -- A store begins like a load, but its line goes on.
      obtain ⟨_, hrest⟩ := h.readsBack _ _ _ (.load htensor his) (.newline _) (.blank _) heq
      exact absurd (List.cons.inj hrest).1 (by decide)
  | loop hv hlo hn hbody => exact absurd heq (h.append_ne_for (.newline _) _)
  | block hss => exact absurd heq (h.head_ne (by decide) (by decide))

theorem recovers_store {tensor : String} {is : List Expr} {value : Expr}
    (htensor : Text.isName tensor = true) (his : ∀ i ∈ is, LegibleValue i)
    (hvalue : LegibleValue value) : Recovers (store tensor is value) := by
  intro e' depth rest rest' h' heq
  have hload : LegibleValue (load tensor is) := .load htensor his
  cases h' with
  | value h' =>
      rw [linesThen_value h'] at heq
      obtain ⟨_, hrest⟩ := hload.readsBack _ _ _ h' (.blank _) (.newline _) heq
      exact absurd (List.cons.inj hrest).1 (by decide)
  | store htensor' his' hvalue' =>
      obtain ⟨hsame, hrest⟩ :=
        hload.readsBack _ _ _ (.load htensor' his') (.blank _) (.blank _) heq
      obtain ⟨rfl, rfl⟩ := Expr.load.inj hsame
      have hright := (List.cons.inj (List.cons.inj (List.cons.inj hrest).2).2).2
      obtain ⟨rfl, hend⟩ :=
        hvalue.readsBack _ _ _ hvalue' (.newline _) (.newline _) hright
      exact ⟨rfl, (List.cons.inj hend).2⟩
  | loop hv hlo hn hbody => exact absurd heq (hload.append_ne_for (.blank _) _)
  | block hss => exact absurd heq (hload.head_ne (by decide) (by decide))

theorem recovers_loop {v : String} {lo n : Expr} {marks : LoopMarks} {body : Expr}
    (hv : Text.isName v = true) (hlo : LegibleValue lo) (hn : LegibleValue n)
    (hbody : ∀ s ∈ body.statements, Recovers s) : Recovers (loop v lo n marks body) := by
  intro e' depth rest rest' h' heq
  cases h' with
  | value h' =>
      rw [linesThen_value h'] at heq
      exact absurd heq.symm (h'.append_ne_for (.newline _) _)
  | store htensor his hvalue =>
      have hload := LegibleValue.load htensor his
      exact absurd heq.symm (hload.append_ne_for (.blank _) _)
  | @loop v' lo' n' marks' body' hv' hlo' hn' hbody' =>
      simp only [linesThen, List.cons.injEq, true_and] at heq
      obtain ⟨hvar, hin⟩ := (Text.isToken_of_isName hv).unique (Text.isToken_of_isName hv')
        (Text.endsToken_cons rfl _) (Text.endsToken_cons rfl _) heq
      simp only [List.cons.injEq, true_and] at hin
      obtain ⟨rfl, hrange⟩ := hlo.readsBack lo' _ _ hlo' (.range _) (.range _) hin
      simp only [List.cons.injEq, true_and] at hrange
      obtain ⟨rfl, hmarks⟩ := hn.readsBack n' _ _ hn' (marks.followsValue_writeHead _)
        (marks'.followsValue_writeHead _) hrange
      obtain ⟨rfl, hlines⟩ := LoopMarks.writeHead_inj hmarks
      obtain rfl : v = v' := String.toList_inj.1 hvar
      obtain ⟨hstatements, hrest⟩ :=
        writeAllAt_inj hbody hbody'.of_mem_statements (List.cons.inj hlines).2
      rw [blockBodies, blockBodies, statements_blockBodies, statements_blockBodies, hstatements]
      exact ⟨rfl, hrest⟩
  | block hss => exact absurd (List.cons.inj heq).1 (by decide)

theorem recovers_block {ss : List Expr} (h : ∀ s ∈ ss, Recovers s) : Recovers (block ss) := by
  intro e' depth rest rest' h' heq
  cases h' with
  | value h' =>
      rw [linesThen_value h'] at heq
      exact absurd heq.symm (h'.head_ne (by decide) (by decide))
  | store htensor his hvalue =>
      have hload := LegibleValue.load htensor his
      exact absurd heq.symm (hload.head_ne (by decide) (by decide))
  | loop hv hlo hn hbody => exact absurd (List.cons.inj heq).1 (by decide)
  | @block ss' hss =>
      simp only [linesThen, List.cons.injEq, true_and] at heq
      obtain ⟨hstatements, hrest⟩ := writeAllAt_inj h hss heq
      rw [blockBodies, blockBodies, blockBodiesAll_eq, blockBodiesAll_eq, hstatements]
      exact ⟨rfl, hrest⟩

/-- The statements of a block are recovered as well: as the body of a loop it has no
braces of its own. -/
theorem Legible.recovers {e : Expr} (h : Legible e) :
    Recovers e ∧ ∀ s ∈ e.statements, Recovers s := by
  have alone {e : Expr} (hblock : e.statements = [e]) (h : Recovers e) :
      Recovers e ∧ ∀ s ∈ e.statements, Recovers s := by
    refine ⟨h, fun s hs => ?_⟩
    rw [hblock, List.mem_singleton] at hs
    exact hs ▸ h
  induction h with
  | value h => exact alone h.statements_eq (recovers_value h)
  | store htensor his hvalue => exact alone rfl (recovers_store htensor his hvalue)
  | loop hv hlo hn _ ih => exact alone rfl (recovers_loop hv hlo hn ih.2)
  | block _ ih =>
      have hstatements : ∀ s ∈ _, Recovers s := fun s hs => (ih s hs).1
      exact ⟨recovers_block hstatements, hstatements⟩

/-! ## Dumps -/

theorem writeAt_blockBodies (e : Expr) (bare : Bool) (depth : Nat) :
    e.blockBodies.writeAt bare depth = e.writeAt bare depth := by
  induction e using Expr.induct generalizing bare depth with
  | int | float | bool | var | handle | binary | load | store => rfl
  | loop v lo n marks body _ _ ih =>
      have hbody : (block body.blockBodies.statements).writeAt true (depth + 1) =
          body.writeAt true (depth + 1) := by
        rw [← ih, writeAt_true, writeAt_true]
        rfl
      rw [blockBodies, writeAt, writeAt, hbody]
  | block ss ih =>
      have hlines (depth : Nat) : writeAllAt depth (blockBodiesAll ss) = writeAllAt depth ss := by
        rw [writeAllAt_eq, writeAllAt_eq, blockBodiesAll_eq, List.flatMap_map]
        exact List.flatMap_congr fun s hs => ih s hs false depth
      rw [blockBodies, writeAt, writeAt, hlines, hlines]

example : (loop "i" (int 0) (var "n") .empty (store "y" [var "i"] (load "x" [var "i"]))).write =
    "for i in 0..+n \x7b\n  y[i] = x[i]\n\x7d\n".toList := by
  decide

/-- Two legible trees have the same dump exactly when they are equal up to blocks for
loop bodies. -/
theorem text_eq_text_iff {e e' : Expr} (h : Legible e) (h' : Legible e') :
    e.text = e'.text ↔ e.blockBodies = e'.blockBodies := by
  constructor
  · intro htext
    have hwrite : e.writeAt false 0 ++ [] = e'.writeAt false 0 ++ [] := by
      rw [List.append_nil, List.append_nil]
      exact String.ofList_inj.1 htext
    rw [writeAt_append, writeAt_append] at hwrite
    exact (h.recovers.1 e' 0 [] [] h' (List.append_cancel_left hwrite)).1
  · intro hblocks
    rw [text, text, write, write, ← writeAt_blockBodies e, hblocks, writeAt_blockBodies e']

/-- A body alone and the block that holds it are written alike; the marks of a loop show. -/
theorem text_eq_text_iff_only_statement :
    (loop "i" (int 0) (var "n") .reduction (store "y" [var "i"] (float .one))).text =
        (loop "i" (int 0) (var "n") .reduction (block [store "y" [var "i"] (float .one)])).text ∧
      (loop "i" (int 0) (var "n") .reduction (store "y" [var "i"] (float .one))).text ≠
        (loop "i" (int 0) (var "n") .empty (store "y" [var "i"] (float .one))).text := by
  have hindex : LegibleValue (var "i") := .atom (.var (by decide))
  have hstore : Legible (store "y" [var "i"] (float .one)) := by
    refine .store (by decide) (fun i hi => ?_) (.atom (.float (by decide)))
    rw [List.mem_singleton.1 hi]
    exact hindex
  have hloop (marks : LoopMarks) {body : Expr} (hbody : Legible body) :
      Legible (loop "i" (int 0) (var "n") marks body) :=
    .loop (by decide) (.atom (.int 0)) (.atom (.var (by decide))) hbody
  have hblock : Legible (block [store "y" [var "i"] (float .one)]) := by
    refine .block fun s hs => ?_
    rw [List.mem_singleton.1 hs]
    exact hstore
  constructor
  · exact (text_eq_text_iff (hloop _ hstore) (hloop _ hblock)).2 rfl
  · rw [Ne, text_eq_text_iff (hloop _ hstore) (hloop _ hstore)]
    intro heq
    exact absurd (Expr.loop.inj heq).2.2.2.1 (by decide)

end Expr

end Reductions
