import StageScript.Proofs.Contexts
import StageScript.Proofs.Continuation
import StageScript.Proofs.Remainder
import StageScript.Proofs.Splicing

set_option autoImplicit false

/-! # Redundant parentheses

Parentheses can be put around the tokens of any node of an expression, unless a bare word stands
right before them, which would then be taken for the name of a call. The text is cut before the
first and behind the last of these tokens (`Text.CutAround`); nothing goes on with a parenthesis,
and so the two new tokens leave all others as they are (`Text.CutAround.exists_enclosed`). Main
statement: `Expression.parenthesized`. -/

namespace StageScript

open Scanner

/-! ## The tokens of a node in the text -/

/-- A text that falls into the tokens `us`, blanks, the tokens `vs` and what is scanned as the
    tokens `ws`: `run` are the characters from the first of `vs` to the last of them. -/
structure Text.CutAround (us vs ws : List Token) (front gap run after : List Char) : Prop where
  scans_front : Scans (gap ++ (run ++ after)) Place.start front us
  isGap_gap : ∀ c ∈ gap, isGap c = true
  scans_run : Scans after (Place.start.afterAll (front ++ gap)) run vs
  prefix_run : ∀ t, vs.head? = some t → t.text.toList <+: run
  items_after : itemsAt 0 ((Place.start.afterAll (front ++ gap)).afterAll run) after =
    ws.map .token

/-- The text with parentheses around the characters in the middle. -/
def Text.enclose (before run after : List Char) : String :=
  String.ofList (before ++ '（' :: (run ++ '）' :: after))

/-- Where tokens stand on one line, the text can be cut around some of them. -/
theorem Text.exists_cutAround {text : List Char} {us vs ws : List Token}
    (h : (Stream.ofText text).items = (us ++ (vs ++ ws)).map .token) (hvs : vs ≠ [])
    (hline : ∀ t ∈ us ++ vs, t.kind ≠ .newline) :
    ∃ front gap run after, text = front ++ gap ++ (run ++ after) ∧
      Text.CutAround us vs ws front gap run after := by
  obtain ⟨husline, hvsline⟩ := List.forall_mem_append.1 hline
  have hitems : itemsAt 0 Place.start text = us.map .token ++ (vs ++ ws).map .token := by
    rw [← List.map_append]
    exact h
  obtain ⟨front, back, rfl, hfront, hback⟩ := scans_of_items hitems husline
  obtain ⟨v, vs, rfl⟩ := List.exists_cons_of_ne_nil hvs
  obtain ⟨hv, hvsline⟩ := List.forall_mem_cons.1 hvsline
  obtain ⟨gap, c, w, back, rfl, hgap, hshape, heq, hrest⟩ := exists_gap_of_items hback hv
  rw [List.append_eq, List.map_append] at hrest
  obtain ⟨run, after, rfl, hrun, hafter⟩ := scans_of_items hrest hvsline
  refine ⟨front, gap, c :: w ++ run, after, by simp, ?_, hgap, ?_, fun t ht => ?_, ?_⟩
  · rw [List.append_assoc]
    exact hfront
  · rw [Place.afterAll_append, heq]
    exact .cons (List.forall_mem_nil _) hshape hrun
  · obtain rfl := Option.some.inj ht
    rw [heq]
    exact ⟨run, by simp [tokenAt]⟩
  · rw [Place.afterAll_append, Place.afterAll_append]
    exact hafter

/-! ## The tokens of the text with parentheses -/

/-- On the same line the same text has tokens that spell the same. -/
theorem Scanner.exists_spelled_of_line {p q : Place} (hline : q.line = p.line) {cs : List Char}
    {us : List Token} (hitems : itemsAt 0 p cs = us.map .token) {xs : List Symbol}
    (hus : Spelled us xs) :
    ∃ vs : List Token, itemsAt 0 q cs = vs.map .token ∧ Spelled vs xs := by
  have hid : Symbol.mapLines (· + 0) = id := funext fun x => by cases x <;> rfl
  have hmoved := itemsAt_moved 0 hline cs
  rw [hitems] at hmoved
  obtain ⟨vs, hvs, hmoved⟩ := exists_of_moved_tokens hmoved
  have hspelled := hus.moved hmoved
  rw [hid, List.map_id] at hspelled
  exact ⟨vs, hvs, hspelled⟩

namespace Text.CutAround

variable {us vs ws : List Token} {front gap run after : List Char}
  (h : Text.CutAround us vs ws front gap run after) {xs ys zs : List Symbol}

include h

/-- Behind the tokens in the middle the closing parenthesis comes next and moves the others on. -/
theorem exists_closed (hvs : Spelled vs ys) (hws : Spelled ws zs) :
    ∃ ts : List Token,
      itemsAt 0 (Place.start.afterAll (front ++ gap)) (run ++ '）' :: after) = ts.map .token ∧
      Spelled ts (ys ++ .sign .rightParen :: zs) := by
  let behind := (Place.start.afterAll (front ++ gap)).afterAll run
  have hline : (behind.after '）').line = behind.line := rfl
  obtain ⟨ws', hws', hspelled⟩ := exists_spelled_of_line hline h.items_after hws
  have hclose : itemsAt 0 behind ('）' :: after) =
      .token (tokenAt behind .rightParen ['）']) :: itemsAt 0 (behind.after '）') after := rfl
  have hseparated : Separated ('）' :: after) := separated_cons (by decide +kernel) after
  have hrun := (Scans.replace (m := []) h.scans_run hseparated).items_eq
  rw [List.nil_append, hclose, hws'] at hrun
  refine ⟨vs ++ tokenAt behind .rightParen ['）'] :: ws', ?_, hvs.append (.cons rfl hspelled)⟩
  rw [hrun, List.map_append, List.map_cons]

/-- With parentheses around them the tokens in the middle are the same, and so are the others. -/
theorem exists_enclosed (hus : Spelled us xs) (hvs : Spelled vs ys) (hws : Spelled ws zs) :
    ∃ ts : List Token,
      (Stream.ofString (Text.enclose (front ++ gap) run after)).items = ts.map .token ∧
      Spelled ts (xs ++ .sign .leftParen :: (ys ++ .sign .rightParen :: zs)) := by
  let place := Place.start.afterAll (front ++ gap)
  have hline : (place.after '（').line = place.line := rfl
  obtain ⟨closed, hclosed, hspelled⟩ := h.exists_closed hvs hws
  obtain ⟨ts, hts, hspelled⟩ := exists_spelled_of_line hline hclosed hspelled
  have hopen : itemsAt 0 place ('（' :: (run ++ '）' :: after)) =
      .token (tokenAt place .leftParen ['（']) :: itemsAt 0 (place.after '（') _ := rfl
  have hseparated : Separated ('（' :: (run ++ '）' :: after)) := separated_cons (by decide +kernel) _
  have hfront := (h.scans_front.replace hseparated).items_eq
  rw [itemsAt_gaps h.isGap_gap, ← Place.afterAll_append, hopen, hts] at hfront
  refine ⟨us ++ tokenAt place .leftParen ['（'] :: ts, ?_, hus.append (.cons rfl hspelled)⟩
  rw [List.map_append, List.map_cons, ← hfront]
  unfold Text.enclose Stream.ofString
  rw [String.toList_ofList, List.append_assoc]
  rfl

end Text.CutAround

/-! ## The expression -/

/-- The script is read as one expression, which is the expression `e` with a group around the
    subtree `s` and comes to the same. -/
structure Expression.Regrouped (e : Expression) (c : Tree.Context) (s : Tree) (source : String)
    (e' : Expression) : Prop where
  read : ∃ rest, Parser.expression (Stream.ofString source) = .ok e' rest ∧ rest.AtEnd
  /-- The tree has one group more, and no other line. -/
  tree : e'.tree? = some (c.fill (.group s))
  /-- The value and all that happens on the way to it are the same on every stage. -/
  evaluate : e'.evaluate = e.evaluate

namespace Parser

variable {source : String} {e : Expression} {rest : Stream} {c : Tree.Context} {s : Tree}

/-- What is read off a whole script. -/
theorem exists_tokens_of_expression (h : expression (Stream.ofString source) = .ok e rest)
    (hend : rest.AtEnd) {t : Tree} (ht : e.tree? = some t) :
    e = .ofTree t ∧ t.Levelled ∧ WordsApart t.yield ∧
      ∃ ts : List Token, (Stream.ofString source).items = ts.map .token ∧ Spelled ts t.yield := by
  rw [expression_eq] at h
  obtain ⟨t', mid, hread, hmid⟩ := bind_eq_ok.1 h
  obtain ⟨rfl, rfl⟩ := pure_eq_ok.1 hmid
  obtain rfl : t' = t := by
    rw [Expression.tree?_ofTree] at ht
    exact Option.some.inj ht
  obtain ⟨⟨ts, hs, hts⟩, hlevelled, -, n, -, hapart, -⟩ := treeAt_sound hread
  have hrest : mid.items = [] :=
    (Stream.atEnd_iff ((leaves_treeAt 0 _).isRestOf_of_ok hread)).1 hend
  refine ⟨rfl, hlevelled, hapart.of_append, ts, ?_, hts⟩
  rw [hs, Stream.prepend, hrest, List.append_nil]

/-- Tokens that stand alone are read as the tree that they spell. -/
theorem expression_of_spelled {ts : List Token} {t : Tree}
    (hitems : (Stream.ofString source).items = ts.map .token) (hts : Spelled ts t.yield)
    (hlevelled : t.Levelled) (hapart : WordsApart t.yield) :
    ∃ rest, expression (Stream.ofString source) = .ok (.ofTree t) rest ∧ rest.AtEnd := by
  let fin : Stream := ⟨[], (Stream.ofString source).stop, (Stream.ofString source).stopLine⟩
  have hfin : fin.head = .token fin.finish := rfl
  have hstream : Stream.ofString source = fin.prepend ts := by
    rw [Stream.prepend, List.append_nil, ← hitems]
  refine ⟨fin, ?_, rfl⟩
  have hread := treeAt_of_spelled hts hlevelled hfin
    (hapart.append_sign (show TokenKind.endOfFile ≠ .leftParen by decide)) rfl
  rw [expression_eq, hstream, bind_of_ok hread]
  rfl

end Parser

/-- **Redundant parentheses.** In a script that is one expression, parentheses can be put around the
    tokens of any subtree, unless a bare word stands right before them: the script is one expression
    again, with a group around that subtree, and comes to the same. -/
theorem Expression.parenthesized {source : String} {e : Expression} {rest : Stream}
    {c : Tree.Context} {s : Tree}
    (h : Parser.expression (Stream.ofString source) = .ok e rest) (hend : rest.AtEnd)
    (ht : e.tree? = some (c.fill s)) :
    ∃ us vs ws front gap run after, source.toList = front ++ gap ++ (run ++ after) ∧
      Text.CutAround us vs ws front gap run after ∧
      Spelled us c.front ∧ Spelled vs s.yield ∧ Spelled ws c.back ∧
      ((∃ e', e.Regrouped c s (Text.enclose (front ++ gap) run after) e') ↔ c.BehindNoWord) := by
  obtain ⟨rfl, hlevelled, hapart, ts, hitems, hts⟩ :=
    Parser.exists_tokens_of_expression h hend ht
  have hkind := hts.kind_ne_newline
  rw [c.yield_fill] at hts
  obtain ⟨us, more, rfl, hus, hmore⟩ := hts.exists_of_append
  obtain ⟨vs, ws, rfl, hvs, hws⟩ := hmore.exists_of_append
  have hne : vs ≠ [] := by
    rintro rfl
    obtain ⟨x, xs, hyield, -⟩ := s.exists_first
    rw [hyield] at hvs
    cases hvs
  obtain ⟨front, gap, run, after, htext, hcut⟩ := Text.exists_cutAround hitems hne
    fun t htmem => hkind t (by simp only [List.mem_append] at htmem ⊢; tauto)
  refine ⟨us, vs, ws, front, gap, run, after, htext, hcut, hus, hvs, hws, ?_, fun hword => ?_⟩
  · rintro ⟨e', ⟨rest', hread, hend'⟩, htree, -⟩
    obtain ⟨-, -, hapart', -⟩ := Parser.exists_tokens_of_expression hread hend' htree
    exact (c.wordsApart_fill_group hapart).1 hapart'
  · obtain ⟨ts', hitems', hts'⟩ := hcut.exists_enclosed hus hvs hws
    rw [← c.yield_fill_group] at hts'
    refine ⟨.ofTree (c.fill (.group s)), Parser.expression_of_spelled hitems' hts'
      (c.levelled_fill_group hlevelled) ((c.wordsApart_fill_group hapart).2 hword),
      tree?_ofTree _, ?_⟩
    rw [evaluate_ofTree, evaluate_ofTree]
    exact c.evaluate_congr (s := .group s) (t := s) rfl (by rw [Tree.evaluate])

/-- The left operand of an argument with a key, between arguments without, in the left operand of a
    connective, with blanks and a comment. -/
theorem Expression.parenthesized_argument :
    let c : Tree.Context := .left (.connective .conjunction)
      (.argument "合計" (.cons none (.atom (.word "x") 1) .nil) (some "数")
        (.left (.comparison .less) .hole (.atom (.number "2") 1))
        (.cons none (.atom (.word "y") 1) .nil) 1) (.atom (.word "b") 1)
    ∃ e rest,
      Parser.expression (Stream.ofString "合計(x\u3000数：a ＜2 y) かつ b # c") = .ok e rest ∧
      rest.AtEnd ∧ e.tree? = some (c.fill (.atom (.word "a") 1)) ∧
      ∃ us vs ws front gap run after,
        "合計(x\u3000数：a ＜2 y) かつ b # c".toList = front ++ gap ++ (run ++ after) ∧
        Text.CutAround us vs ws front gap run after ∧ Spelled us c.front ∧
        Spelled vs [.literal (.word "a") 1] ∧ Spelled ws c.back ∧
        ∃ e', e.Regrouped c (.atom (.word "a") 1) (Text.enclose (front ++ gap) run after) e' := by
  intro c
  have hread : (Parser.expression
      (Stream.ofString "合計(x\u3000数：a ＜2 y) かつ b # c")).result.toOption =
        some (.ofTree (c.fill (.atom (.word "a") 1))) := by decide +kernel
  have hend : (Parser.expression
      (Stream.ofString "合計(x\u3000数：a ＜2 y) かつ b # c")).rest.AtEnd := by
    unfold Stream.AtEnd
    decide +kernel
  have hword : c.BehindNoWord := by
    intro x hx
    obtain rfl : Symbol.sign .colon = x := Option.some.inj hx
    exact id
  cases h : Parser.expression (Stream.ofString "合計(x\u3000数：a ＜2 y) かつ b # c") with
  | error e rest =>
    rw [h] at hread
    cases hread
  | ok e rest =>
    rw [h] at hread hend
    obtain rfl := Option.some.inj hread
    have ht := tree?_ofTree (c.fill (.atom (.word "a") 1))
    obtain ⟨us, vs, ws, front, gap, run, after, htext, hcut, hus, hvs, hws, hiff⟩ :=
      parenthesized h hend ht
    exact ⟨_, rest, rfl, hend, ht, us, vs, ws, front, gap, run, after, htext, hcut, hus, hvs, hws,
      hiff.2 hword⟩

end StageScript
