import StageScript.Proofs.Appending
import StageScript.Proofs.Composition

set_option autoImplicit false

/-! # The line of a jump

The statement under a guard ends at the end of its line, so that the arrow of a jump has to stand on
a line of its own: `Program.parse_arrow` puts blanks and newlines between a script and an arrow, and
whether the arrow is read depends on nothing but whether there is a newline among them. The
statement under the guard stops within its tokens, or the newline that ends it is missing and its
end is refused at the arrow: `Parser.statement_pulled` follows the two runs in step. -/

namespace StageScript

open Scanner

/-! ## Inside a line -/

/-- Tokens of a script, the last of which ends no line. -/
structure InLine (us : List Token) : Prop where
  ne_endOfFile : ∀ u ∈ us, u.kind ≠ .endOfFile
  last : ∀ u ∈ us.getLast?, u.kind ≠ .newline

namespace InLine

variable {us vs : List Token} {u : Token}

theorem of_suffix (h : InLine us) (hvs : vs <:+ us) : InLine vs := by
  obtain ⟨ws, rfl⟩ := hvs
  refine ⟨fun u hu => h.ne_endOfFile u (List.mem_append_right _ hu), fun u hu => h.last u ?_⟩
  rw [List.getLast?_append, Option.mem_def.1 hu]
  rfl

theorem of_cons (h : InLine (u :: us)) : InLine us := h.of_suffix (List.suffix_cons u us)

/-- A newline is not the last token. -/
theorem ne_nil (h : InLine (u :: us)) (hu : u.kind = .newline) : us ≠ [] := by
  rintro rfl
  exact h.last u rfl hu

/-- Of tokens that end no line, one at least is left when newlines are skipped. -/
theorem exists_dropNewlines (h : InLine us) (hne : us ≠ []) :
    ∃ w ws, w :: ws <:+ us ∧ ∀ s : Stream, (s.prepend us).dropNewlines = s.prepend (w :: ws) := by
  induction us with
  | nil => exact absurd rfl hne
  | cons u us ih =>
    by_cases hu : u.kind = .newline
    · obtain ⟨w, ws, hws, hdrop⟩ := ih h.of_cons (h.ne_nil hu)
      exact ⟨w, ws, hws.trans (List.suffix_cons u us), fun s => by
        rw [Stream.dropNewlines_cons hu, hdrop]⟩
    · exact ⟨u, us, List.suffix_rfl, fun s => Stream.dropNewlines_of_head rfl hu⟩

end InLine

/-- One stream starts with a newline and an arrow, the other with the arrow `a` alone. -/
structure Stream.Pulled (t t' : Stream) (a : Token) : Prop where
  line : ∃ n, t.head = .token n ∧ n.kind = .newline
  next : ∃ b, t.tail.head = .token b ∧ b.kind = .arrow
  head : t'.head = .token a
  arrow : a.kind = .arrow

namespace Stream.Pulled

variable {t t' : Stream} {a : Token} (hp : t.Pulled t' a)
include hp

/-- Tokens without a newline that are taken off are some of those before the newline. -/
theorem exists_of_prepend_eq {rest : Stream} {us ws : List Token}
    (hws : ∀ w ∈ ws, w.kind ≠ .newline) (h : t.prepend us = rest.prepend ws) :
    ∃ vs, us = ws ++ vs ∧ rest = t.prepend vs := by
  induction ws generalizing us with
  | nil => exact ⟨us, rfl, h.symm⟩
  | cons w ws ih =>
    obtain ⟨hw, hmore⟩ := List.forall_mem_cons.1 hws
    have hhead := congrArg Stream.head h
    have htail := congrArg Stream.tail h
    cases us with
    | nil =>
      obtain ⟨n, hn, hk⟩ := hp.line
      cases hn.symm.trans hhead
      exact absurd hk hw
    | cons u us =>
      obtain rfl : u = w := Item.token.inj hhead
      obtain ⟨vs, rfl, rfl⟩ := ih hmore htail
      exact ⟨vs, rfl, rfl⟩

/-- Behind some tokens the second stream goes on as the first does, or with the arrow. -/
theorem head_cases {vs : List Token} {n : Token} (hn : (t.prepend vs).head = .token n) :
    (t'.prepend vs).head = .token n ∨ (t'.prepend vs).head = .token a := by
  cases vs with
  | cons v vs => exact .inl hn
  | nil => exact .inr hp.head

theorem exists_cons {us : List Token} {n : Token} (hn : (t.prepend us).head = .token n)
    (hk : n.kind ≠ .newline) : ∃ vs, us = n :: vs := by
  cases us with
  | cons u us =>
    cases hn
    exact ⟨us, rfl⟩
  | nil =>
    obtain ⟨m, hm, hmk⟩ := hp.line
    cases hm.symm.trans hn
    exact absurd hmk hk

end Stream.Pulled

/-! ## The arrow in the place of the newline -/

namespace Parser

theorem ArgumentRead.kind_ne_newline {us : List Token} {key : String} {v : Literal}
    (h : ArgumentRead us key v) : ∀ u ∈ us, u.kind ≠ .newline := by
  cases h with
  | @plain u v hk => cases hv : v.kind <;> simp [hk, hv, LiteralKind.token]
  | @keyed word colon u v hword hcolon hk =>
    cases hv : v.kind <;> simp [hword, hcolon, hk, hv, LiteralKind.token]

/-- How a statement is refused behind its first token, by its form. -/
inductive StatementRefused (s : Stream) (e : ParseError) (rest : Stream) : Prop where
  | dialogue {t : Token} (hhead : s.head = .token t) (hk : t.kind = .string)
    (hend : terminator s.tail = .error e rest) : StatementRefused s e rest
  | command {t : Token} {b : Arguments} {mid : Stream} (hhead : s.head = .token t)
    (hk : t.kind = .identifier) (hb : commandArguments .empty s.tail = .ok b mid)
    (hend : terminator mid = .error e rest) : StatementRefused s e rest
  | body {t : Token} {c : Tree} {behind start : Stream} (hhead : s.head = .token t)
    (hk : t.kind = .guardMark) (hc : treeAt 0 s.tail = .ok c behind)
    (hstart : skipNewlines behind = .ok () start) (hbody : statement start = .error e rest) :
    StatementRefused s e rest
  | jump {t : Token} {c : Tree} {behind start done last : Stream} {body : Statement}
    (hhead : s.head = .token t) (hk : t.kind = .guardMark) (hc : treeAt 0 s.tail = .ok c behind)
    (hstart : skipNewlines behind = .ok () start) (hbody : statement start = .ok body done)
    (hlast : skipNewlines done = .ok () last) (hlabel : jump last = .error e rest) :
    StatementRefused s e rest

theorem statement_of_refused {s rest : Stream} {e : ParseError}
    (h : StatementRefused s e rest) : statement s = .error e rest := by
  rw [statement_eq]
  cases h with
  | dialogue hhead hk hend =>
    rw [bind_of_ok (next_of_token hhead), hk]
    exact bind_of_error hend
  | command hhead hk hb hend =>
    rw [bind_of_ok (next_of_token hhead), hk]
    exact (bind_of_ok hb).trans (bind_of_error hend)
  | body hhead hk hc hstart hbody =>
    rw [bind_of_ok (next_of_token hhead), hk]
    exact (bind_of_ok hc).trans ((bind_of_ok hstart).trans (bind_of_error hbody))
  | jump hhead hk hc hstart hbody hlast hlabel =>
    rw [bind_of_ok (next_of_token hhead), hk]
    exact (bind_of_ok hc).trans ((bind_of_ok hstart).trans ((bind_of_ok hbody).trans
      ((bind_of_ok hlast).trans (bind_of_error hlabel))))

/-- Statements go on with one, unless a newline or the end of the file comes next. -/
theorem statements_of_statement {s : Stream} {t : Token} (h : s.head = .token t)
    (hline : t.kind ≠ .newline) (hend : t.kind ≠ .endOfFile) :
    statements s = (do
      let statement ← statement
      let rest ← statements
      return statement :: rest : Parser (List Statement)) s := by
  conv => lhs; rw [statements_eq, bind_of_ok (peek_of_token h)]
  cases hk : t.kind
  case newline => exact absurd hk hline
  case endOfFile => exact absurd hk hend
  all_goals rfl

/-- What a parser that succeeds before a newline and an arrow does before the arrow alone: it stops
    within the tokens, or it refuses the arrow in the place of the newline. -/
inductive Pulled {α : Type} (p : Parser α) (t t' : Stream) (a : Token) (us : List Token) (value : α)
    (rest : Stream) : Prop where
  | within {vs : List Token} (hvs : vs <:+ us) (hne : vs ≠ []) (hrest : rest = t.prepend vs)
    (h : p (t'.prepend us) = .ok value (t'.prepend vs)) : Pulled p t t' a us value rest
  | refused (h : p (t'.prepend us) = .error (.atToken (.unexpectedToken .arrow .newline) a) t') :
    Pulled p t t' a us value rest

/-- Newlines are skipped in the same way before any two streams. -/
theorem exists_of_skipNewlines {t t' rest : Stream} {us : List Token} (hus : InLine us)
    (hne : us ≠ []) (h : skipNewlines (t.prepend us) = .ok () rest) :
    ∃ vs, vs <:+ us ∧ vs ≠ [] ∧ rest = t.prepend vs ∧
      skipNewlines (t'.prepend us) = .ok () (t'.prepend vs) := by
  obtain ⟨-, rfl⟩ := skipNewlines_eq_ok.1 h
  obtain ⟨w, ws, hws, hdrop⟩ := hus.exists_dropNewlines hne
  exact ⟨w :: ws, hws, by simp, hdrop t, skipNewlines_eq_ok.2 ⟨⟨w, rfl⟩, (hdrop t').symm⟩⟩

section Pulled

variable {t t' : Stream} {a : Token} (hp : t.Pulled t' a)
include hp

theorem treeAt_pulled {us : List Token} {c : Tree} {rest : Stream}
    (h : treeAt 0 (t.prepend us) = .ok c rest) :
    ∃ vs, vs <:+ us ∧ rest = t.prepend vs ∧ treeAt 0 (t'.prepend us) = .ok c (t'.prepend vs) := by
  obtain ⟨⟨ws, heq, hws⟩, hread⟩ := treeAt_sound h
  obtain ⟨vs, rfl, rfl⟩ := hp.exists_of_prepend_eq hws.kind_ne_newline heq
  obtain ⟨n, hn, hapart, hoperator⟩ := hread.exists_stop
  refine ⟨vs, List.suffix_append ws vs, rfl, ?_⟩
  rw [← Stream.prepend_prepend]
  rcases hp.head_cases hn with hn' | hn'
  · exact treeAt_of_spelled hws hread.levelled hn' hapart hoperator
  · refine treeAt_of_spelled hws hread.levelled hn' ?_ (by rw [hp.arrow]; rfl)
    exact hapart.of_append.append_sign (by simp [hp.arrow])

theorem commandArguments_pulled {us : List Token} {b c : Arguments} {rest : Stream}
    (h : commandArguments b (t.prepend us) = .ok c rest) :
    ∃ vs, vs <:+ us ∧ rest = t.prepend vs ∧
      commandArguments b (t'.prepend us) = .ok c (t'.prepend vs) := by
  rcases commandArguments_eq_ok h with ⟨rfl, rfl, n, hn, hstop⟩ |
    ⟨ws, key, v, mid, n, heq, hread, hn, hcolon, hmore⟩
  · refine ⟨us, List.suffix_rfl, rfl, ?_⟩
    rcases hp.head_cases hn with hn' | hn'
    · exact commandArguments_of_stop hn' hstop
    · refine commandArguments_of_stop hn' fun l => ?_
      rw [hp.arrow]
      cases l <;> simp [LiteralKind.token]
  · obtain ⟨os, hsplit, rfl⟩ := hp.exists_of_prepend_eq hread.kind_ne_newline heq
    have hlt : os.length < us.length := by
      have := hread.length_lt t
      rw [Stream.length_items_prepend] at this
      rw [hsplit, List.length_append]
      omega
    obtain ⟨vs, hvs, hrest, hmore'⟩ := commandArguments_pulled hmore
    refine ⟨vs, hsplit ▸ hvs.trans (List.suffix_append ws os), hrest, ?_⟩
    rw [hsplit, ← Stream.prepend_prepend]
    rcases hp.head_cases hn with hn' | hn'
    · rw [hread.commandArguments_eq hn' hcolon, hmore']
    · rw [hread.commandArguments_eq hn' (by simp [hp.arrow]), hmore']
termination_by us.length

/-- The end of a statement is found within the tokens, or it is the newline. -/
theorem terminator_pulled {us : List Token} (hus : InLine us) {rest : Stream}
    (h : terminator (t.prepend us) = .ok () rest) : Pulled terminator t t' a us () rest := by
  obtain ⟨n, hn, hk⟩ := terminator_eq_ok.1 h
  cases us with
  | nil =>
    refine .refused ((terminator_of_token hp.head).trans ?_)
    rw [hp.arrow]
    rfl
  | cons u us =>
    obtain rfl : u = n := Item.token.inj hn
    rcases hk with ⟨hk, rfl⟩ | ⟨hk, -⟩
    · exact .within (List.suffix_cons u us) (hus.ne_nil hk) rfl
        (terminator_eq_ok.2 ⟨u, rfl, .inl ⟨hk, rfl⟩⟩)
    · exact absurd hk (hus.ne_endOfFile u List.mem_cons_self)

/-- An arrow within the tokens is that of a jump whose own end may be the newline. -/
theorem jump_pulled {us : List Token} (hus : InLine us) (hne : us ≠ [])
    {label : Option String} {rest : Stream} (h : jump (t.prepend us) = .ok label rest) :
    Pulled jump t t' a us label rest := by
  obtain ⟨u, us, rfl⟩ := List.exists_cons_of_ne_nil hne
  rcases jump_eq_ok.1 h with ⟨n, hn, hk, rfl, rfl⟩ |
    ⟨arrow, word, harrow, hk, hword, hwordk, hend, rfl⟩
  · obtain rfl : u = n := Item.token.inj hn
    exact .within List.suffix_rfl hne rfl (jump_eq_ok.2 (.inl ⟨u, rfl, hk, rfl, rfl⟩))
  · cases harrow
    obtain ⟨vs, rfl⟩ := hp.exists_cons hword (by simp [hwordk])
    have hvs : vs <:+ u :: word :: vs := List.suffix_append [u, word] vs
    cases terminator_pulled hp (hus.of_suffix hvs) hend with
    | within hos hne' hrest hend' =>
      exact .within (hos.trans hvs) hne' hrest
        (jump_eq_ok.2 (.inr ⟨u, word, rfl, hk, rfl, hwordk, hend', rfl⟩))
    | refused hend' =>
      refine .refused ?_
      rw [jump, bind_of_ok (eat_eq_true.2 ⟨u, rfl, hk, rfl⟩)]
      exact (bind_of_ok (expect_eq_ok.2 ⟨rfl, hwordk, rfl⟩)).trans (bind_of_error hend')

/-- No statement starts behind the newline. -/
theorem ne_nil_of_statement {us : List Token} {st : Statement} {rest : Stream}
    (h : statement (t.prepend us).dropNewlines = .ok st rest) : us ≠ [] := by
  rintro rfl
  obtain ⟨n, hn, hnk⟩ := hp.line
  obtain ⟨b, hb, hbk⟩ := hp.next
  have ht : t = t.tail.prepend [n] := Stream.eq_prepend_of_head hn (by simp [hnk])
  have hdrop : (t.prepend []).dropNewlines = t.tail := calc
    t.dropNewlines = (t.tail.prepend [n]).dropNewlines := by rw [← ht]
    _ = t.tail.dropNewlines := Stream.dropNewlines_cons hnk [] t.tail
    _ = t.tail := Stream.dropNewlines_of_head hb (by simp [hbk])
  obtain ⟨m, hm, -, harrow, -⟩ := exists_head_of_statement (hdrop ▸ h)
  cases hb.symm.trans hm
  exact harrow hbk

/-- **A statement stops within the tokens, or its end is refused at the arrow.** -/
theorem statement_pulled {us : List Token} (hus : InLine us) {st : Statement} {rest : Stream}
    (h : statement (t.prepend us) = .ok st rest) : Pulled statement t t' a us st rest := by
  induction st generalizing us rest with
  | dialogue text line =>
    cases statement_eq_ok.1 h with
    | @dialogue n hhead hk hend =>
      obtain ⟨vs, rfl⟩ := hp.exists_cons hhead (by simp [hk])
      cases terminator_pulled hp hus.of_cons hend with
      | within hos hne hrest hend' =>
        exact .within (hos.trans (List.suffix_cons n vs)) hne hrest
          (statement_eq_ok.2 (.dialogue rfl hk hend'))
      | refused hend' =>
        exact .refused (statement_of_refused (.dialogue rfl hk hend'))
  | command name arguments line =>
    cases statement_eq_ok.1 h with
    | @command n _ mid hhead hk ha hend =>
      obtain ⟨vs, rfl⟩ := hp.exists_cons hhead (by simp [hk])
      obtain ⟨ms, hms, rfl, ha'⟩ := commandArguments_pulled hp ha
      cases terminator_pulled hp (hus.of_cons.of_suffix hms) hend with
      | within hos hne hrest hend' =>
        exact .within (hos.trans (hms.trans (List.suffix_cons n vs))) hne hrest
          (statement_eq_ok.2 (.command rfl hk ha' hend'))
      | refused hend' =>
        exact .refused (statement_of_refused (.command rfl hk ha' hend'))
  | conditional condition body label line ih =>
    cases statement_eq_ok.1 h with
    | @conditional n c behind start done last body label hhead hk hc hstart hbody hlast hlabel =>
      obtain ⟨vs, rfl⟩ := hp.exists_cons hhead (by simp [hk])
      obtain ⟨bs, hbs, rfl, hc'⟩ := treeAt_pulled hp hc
      -- the condition ends before the newline, since no body starts with the arrow behind it
      have hbsline := hus.of_cons.of_suffix hbs
      have hbsne : bs ≠ [] := by
        obtain ⟨-, rfl⟩ := skipNewlines_eq_ok.1 hstart
        exact ne_nil_of_statement hp hbody
      obtain ⟨ws, hws, -, rfl, hstart'⟩ := exists_of_skipNewlines hbsline hbsne hstart
      have hwsline := hbsline.of_suffix hws
      cases ih hwsline hbody with
      | refused hbody' =>
        exact .refused (statement_of_refused (.body rfl hk hc' hstart' hbody'))
      | @within ds hds hdsne hdone hbody' =>
        -- the body ends before the newline, and so what is left may still be a jump of this guard
        subst hdone
        have hdsline := hwsline.of_suffix hds
        obtain ⟨xs, hxs, hxsne, rfl, hlast'⟩ := exists_of_skipNewlines hdsline hdsne hlast
        cases jump_pulled hp (hdsline.of_suffix hxs) hxsne hlabel with
        | @within os hos hosne hrest hlabel' =>
          have hsuffix : os <:+ vs := hos.trans (hxs.trans (hds.trans (hws.trans hbs)))
          exact .within (hsuffix.trans (List.suffix_cons n vs)) hosne hrest
            (statement_eq_ok.2 (.conditional rfl hk hc' hstart' hbody' hlast' hlabel'))
        | refused hlabel' =>
          exact .refused
            (statement_of_refused (.jump rfl hk hc' hstart' hbody' hlast' hlabel'))

/-- Statements that go on with a jump on its own line are refused at its arrow when the newline
    before it is missing. -/
theorem statements_pulled {us : List Token} (hus : InLine us) (hne : us ≠ [])
    {sts : List Statement} {rest : Stream} (h : statements (t.prepend us) = .ok sts rest) :
    statements (t'.prepend us) = .error (.atToken (.unexpectedToken .arrow .newline) a) t' := by
  obtain ⟨u, us, rfl⟩ := List.exists_cons_of_ne_nil hne
  have hend := hus.ne_endOfFile u List.mem_cons_self
  obtain ⟨n, hn, ⟨hk, htail⟩ | ⟨hk, -⟩ | ⟨hline, -, st, mid, more, hst, hmore, -⟩⟩ :=
    statements_eq_ok.1 h
  · cases hn
    rw [statements_eq, bind_of_ok (peek_of_token rfl), hk]
    exact (bind_of_ok (next_of_token rfl)).trans
      (statements_pulled hus.of_cons (hus.ne_nil hk) htail)
  · cases hn
    exact absurd hk hend
  · cases hn
    rw [statements_of_statement rfl hline hend]
    cases statement_pulled hp hus hst with
    | refused hst' => exact bind_of_error hst'
    | @within vs hvs hvsne hmid hst' =>
      subst hmid
      have hlt : vs.length < (u :: us).length := by
        have := Parsers.advance_whole.statement _ st _ hst
        simp only [Stream.length_items_prepend] at this
        omega
      have hmore' := statements_pulled (hus.of_suffix hvs) hvsne hmore
      exact (bind_of_ok hst').trans (bind_of_error hmore')
termination_by us.length

end Pulled

end Parser

/-! ## Scripts -/

/-- What a script that is parsed starts with is tokens. -/
theorem Program.exists_tokens_of_items {source : String} {p : Program} (h : parse source = .ok p)
    {xs ys : List Item} (hitems : (Stream.ofString source).items = xs ++ ys) :
    ∃ us : List Token, xs = us.map .token := by
  obtain ⟨all, fin, -, -, hfin, hstream, -⟩ := exists_tokens_of_parse h
  have hall : all.map .token = xs ++ ys := by
    rw [← hitems, hstream, Stream.prepend, hfin, List.append_nil]
  obtain ⟨us, -, -, hus, -⟩ := List.map_eq_append_iff.1 hall
  exact ⟨us, hus.symm⟩

/-- The tokens of a script that ends in a token are the start of a line. -/
theorem inLine_of_endsInToken {front : String} (h : EndsInToken front.toList) {us : List Token}
    (hus : (Stream.ofString front).items = us.map .token) : InLine us ∧ us ≠ [] := by
  obtain ⟨t, hlast, hk⟩ := h.getLast?_itemsAt Place.start
  change (Stream.ofString front).items.getLast? = some (.token t) at hlast
  rw [hus, List.getLast?_map] at hlast
  obtain ⟨u, hu, heq⟩ := Option.map_eq_some_iff.1 hlast
  obtain rfl := Item.token.inj heq
  refine ⟨⟨fun v hv => ?_, fun v hv => ?_⟩, ?_⟩
  · have hmem : Item.token v ∈ (Stream.ofText front.toList).items := by
      change _ ∈ (Stream.ofString front).items
      rw [hus]
      exact List.mem_map_of_mem hv
    exact Stream.kind_ne_endOfFile hmem
  · cases hu.symm.trans hv
    exact hk
  · rintro rfl
    cases hu

theorem Stream.eq_prepend_of_items {s : Stream} {us : List Token} {xs : List Item}
    (h : s.items = us.map .token ++ xs) : s = Stream.prepend us ⟨xs, s.stop, s.stopLine⟩ := by
  rw [Stream.prepend, ← h]

/-- A script in which a newline is missing before an arrow is refused at that arrow. -/
theorem Program.parse_pulled {source other : String} {us : List Token} {line b a : Token}
    {xs ys : List Item} (hus : InLine us) (hne : us ≠ []) (hline : line.kind = .newline)
    (hb : b.kind = .arrow) (ha : a.kind = .arrow)
    (hsource : (Stream.ofString source).items = us.map .token ++ .token line :: .token b :: xs)
    (hother : (Stream.ofString other).items = us.map .token ++ .token a :: ys) {p : Program}
    (h : parse source = .ok p) :
    parse other = .error (.atToken (.unexpectedToken .arrow .newline) a) := by
  let t : Stream := { Stream.ofString source with items := .token line :: .token b :: xs }
  let t' : Stream := { Stream.ofString other with items := .token a :: ys }
  have hpulled : t.Pulled t' a := ⟨⟨line, rfl, hline⟩, ⟨b, rfl, hb⟩, rfl, ha⟩
  obtain ⟨last, hrun⟩ := parse_eq_ok.1 h
  rw [Stream.eq_prepend_of_items hsource] at hrun
  have hrefused := Parser.statements_pulled hpulled hus hne hrun
  rw [← Stream.eq_prepend_of_items hother] at hrefused
  exact parse_eq_error.2 ⟨t', hrefused⟩

section Arrow

variable {front line gap rest : String} {p : Program}

/-- Which blanks and newlines stand before an arrow makes no difference, as long as a newline is
    among them. -/
theorem Program.parse_newlines (hfront : EndsInToken front.toList)
    (hline : ∀ c ∈ line.toList, isGap c = true ∨ c = '\n') (hmem : '\n' ∈ line.toList)
    (hgap : ∀ c ∈ gap.toList, isGap c = true ∨ c = '\n') (hmem' : '\n' ∈ gap.toList)
    (h : parse (front ++ line ++ "→" ++ rest) = .ok p) :
    ∃ q, parse (front ++ gap ++ "→" ++ rest) = .ok q ∧ q.withoutLines = p.withoutLines := by
  obtain ⟨ls, hls, hcount, hbefore⟩ := exists_items_of_endsInToken hfront hline rest
  obtain ⟨ns, hns, hcount', hafter⟩ := exists_items_of_endsInToken hfront hgap rest
  obtain ⟨l, ls, rfl⟩ := List.exists_cons_of_length_pos (hcount ▸ List.count_pos_iff.2 hmem)
  obtain ⟨n, ns, rfl⟩ := List.exists_cons_of_length_pos (hcount' ▸ List.count_pos_iff.2 hmem')
  obtain ⟨⟨hl, hltext⟩, hls⟩ := List.forall_mem_cons.1 hls
  obtain ⟨⟨hn, hntext⟩, hns⟩ := List.forall_mem_cons.1 hns
  have hsqueezed :
      (squeeze true (Stream.ofString (front ++ gap ++ "→" ++ rest)).items).map Item.content =
        (squeeze true (Stream.ofString (front ++ line ++ "→" ++ rest)).items).map
          Item.content := by
    rw [hbefore, hafter, List.map_cons, List.map_cons, List.cons_append, List.cons_append,
      squeeze_append_newlines hn fun m hm => (hns m hm).1,
      squeeze_append_newlines hl fun m hm => (hls m hm).1]
    refine map_content_squeeze ?_ true
    rw [List.map_append, List.map_append, List.map_cons, List.map_cons]
    refine congrArg _ (congrArg₂ _ ?_ (map_content_itemsAt _ _ _))
    simp [Item.content, hn, hntext, hl, hltext]
  have hsame := parse_blankLines hsqueezed
  rw [h] at hsame
  generalize parse (front ++ gap ++ "→" ++ rest) = r at hsame
  cases hsame with
  | ok heq => exact ⟨_, rfl, heq⟩

/-- **A jump stands on a line of its own.** When a script that ends in a token goes on with an arrow
    behind blanks and newlines, it is the same program, up to lines, with any other blanks and
    newlines before the arrow, as long as a newline is among them; without one it is refused at the
    arrow, in the place of the newline. -/
theorem Program.parse_arrow (hfront : EndsInToken front.toList)
    (hline : ∀ c ∈ line.toList, isGap c = true ∨ c = '\n') (hmem : '\n' ∈ line.toList)
    (h : parse (front ++ line ++ "→" ++ rest) = .ok p)
    (hgap : ∀ c ∈ gap.toList, isGap c = true ∨ c = '\n') :
    ('\n' ∈ gap.toList → ∃ q, parse (front ++ gap ++ "→" ++ rest) = .ok q ∧
      q.withoutLines = p.withoutLines) ∧
    ('\n' ∉ gap.toList → parse (front ++ gap ++ "→" ++ rest) =
      .error ⟨.unexpectedToken .arrow .newline,
        Span.between (front ++ gap).utf8ByteSize ((front ++ gap).utf8ByteSize + 3),
        1 + front.toList.count '\n'⟩) := by
  refine ⟨fun hmem' => parse_newlines hfront hline hmem hgap hmem' h, fun hnone => ?_⟩
  -- one newline is enough before the arrow
  have hone : ∀ c ∈ "\n".toList, isGap c = true ∨ c = '\n' := by simp
  obtain ⟨q, hq, -⟩ := parse_newlines hfront hline hmem hone (by simp) h
  obtain ⟨lines, hlines, hcount, hbefore⟩ := exists_items_of_endsInToken hfront hone rest
  obtain ⟨n, rfl⟩ : ∃ n, lines = [n] := List.length_eq_one_iff.1 hcount
  have hn := (hlines n List.mem_cons_self).1
  obtain ⟨us, hus⟩ := exists_tokens_of_items hq hbefore
  obtain ⟨hin, hne⟩ := inLine_of_endsInToken hfront hus
  have hcountgap := List.count_eq_zero_of_not_mem hnone
  obtain ⟨ns, -, hcount', hafter⟩ := exists_items_of_endsInToken hfront hgap rest
  obtain rfl : ns = [] := List.length_eq_zero_iff.1 (hcount'.trans hcountgap)
  rw [hus, itemsAt_arrow] at hbefore hafter
  rw [parse_pulled hin hne hn rfl rfl hbefore hafter hq, ParseError.atToken]
  have hplace : Place.start.afterAll (front ++ gap).toList =
      ⟨(front ++ gap).utf8ByteSize, 1 + front.toList.count '\n'⟩ := by
    rw [Place.afterAll_eq, Text.byteCount_toList, String.toList_append, List.count_append,
      hcountgap]
    simp [Place.start]
  rw [hplace]
  rfl

end Arrow

/-- The jump of a guarded dialogue is refused on the line of the dialogue. -/
theorem Program.parse_arrow_beside :
    parse "※１\n「x」\n→l" = .ok ⟨[.conditional (.ofTree (.atom (.number "１") 1))
        (.dialogue "「x」" 2) (some "l") 1]⟩ ∧
      parse "※１\n「x」 →l" = .error ⟨.unexpectedToken .arrow .newline, ⟨15, 3⟩, 2⟩ := by
  decide +kernel

/-- The jump of a guarded command, behind blank lines and on the line of the command. -/
theorem Program.parse_arrow_command :
    EndsInToken "※１\n命令 鍵：「x」".toList ∧
      (∀ c ∈ "\n　".toList, isGap c = true ∨ c = '\n') ∧ '\n' ∈ "\n　".toList ∧ ∃ p,
      parse ("※１\n命令 鍵：「x」" ++ "\n　" ++ "→" ++ "終") = .ok p ∧
      (∀ c ∈ "\n\n".toList, isGap c = true ∨ c = '\n') ∧
      (∀ c ∈ " 　".toList, isGap c = true ∨ c = '\n') ∧
      (∃ q, parse ("※１\n命令 鍵：「x」" ++ "\n\n" ++ "→" ++ "終") = .ok q ∧
        q.withoutLines = p.withoutLines) ∧
      parse ("※１\n命令 鍵：「x」" ++ " 　" ++ "→" ++ "終") =
        .error ⟨.unexpectedToken .arrow .newline, ⟨31, 3⟩, 2⟩ := by
  have hends : EndsInToken "※１\n命令 鍵：「x」".toList := by
    have hlast : (itemsAt 0 Place.start "※１\n命令 鍵：「x」".toList).getLast? =
        some (.token ⟨.string, ⟨20, 7⟩, 2, "「x」"⟩) := by
      decide +kernel
    exact endsInToken_of_stop hlast (by decide) (by decide +kernel)
  have hline : ∀ c ∈ "\n　".toList, isGap c = true ∨ c = '\n' := by simp [isGap]
  have hmem : '\n' ∈ "\n　".toList := by decide +kernel
  have hparsed : parse ("※１\n命令 鍵：「x」" ++ "\n　" ++ "→" ++ "終") = .ok ⟨[.conditional
      (.ofTree (.atom (.number "１") 1)) (.command "命令" ⟨[("鍵", .string "「x」")]⟩ 2)
      (some "終") 1]⟩ := by
    decide +kernel
  have hlines : ∀ c ∈ "\n\n".toList, isGap c = true ∨ c = '\n' := by simp
  have hblanks : ∀ c ∈ " 　".toList, isGap c = true ∨ c = '\n' := by simp [isGap]
  exact ⟨hends, hline, hmem, _, hparsed, hlines, hblanks,
    (parse_arrow hends hline hmem hparsed hlines).1 (by decide +kernel),
    (parse_arrow hends hline hmem hparsed hblanks).2 (by decide +kernel)⟩

end StageScript
