import StageScript.Proofs.LineStart
import StageScript.Proofs.Writing

set_option autoImplicit false

/-! # Reading on behind a script

What has been read up to the end of a file is read in the same way when other lines take the place
of that end, and on other lines: `Parser.statements_moved`. The only parser that looks across the
seam is the one for a jump, which skips newlines; it takes nothing there, since no statement starts
with an arrow. -/

namespace StageScript

/-! ## Moved tokens -/

section Moved

variable {f : Nat → Nat}

theorem Token.Moved.spells {u v : Token} {x : Symbol} (h : u.Moved f v) (hx : u.Spells x) :
    v.Spells (x.mapLines f) := by
  cases x with
  | literal l line =>
    obtain ⟨hk, htext, rfl⟩ := hx
    exact ⟨h.kind.trans hk, h.text.trans htext, h.line⟩
  | name text line =>
    obtain ⟨hk, htext, rfl⟩ := hx
    exact ⟨h.kind.trans hk, h.text.trans htext, h.line⟩
  | key text =>
    obtain ⟨hk, htext⟩ := hx
    exact ⟨h.kind.trans hk, h.text.trans htext⟩
  | sign kind => exact h.kind.trans hx

theorem Spelled.moved {us vs : List Token} {xs : List Symbol} (h : Spelled us xs)
    (hvs : List.Forall₂ (Token.Moved f) us vs) : Spelled vs (xs.map (Symbol.mapLines f)) := by
  induction h generalizing vs with
  | nil =>
    cases hvs
    exact .nil
  | cons hspells _ ih =>
    cases hvs with
    | cons hmoved hvs => exact .cons (hmoved.spells hspells) (ih hvs)

theorem exists_of_moved_append {us vs ws : List Token}
    (h : List.Forall₂ (Token.Moved f) (us ++ vs) ws) :
    ∃ us' vs', ws = us' ++ vs' ∧ List.Forall₂ (Token.Moved f) us us' ∧
      List.Forall₂ (Token.Moved f) vs vs' := by
  induction us generalizing ws with
  | nil => exact ⟨[], ws, rfl, .nil, h⟩
  | cons u us ih =>
    cases h with
    | cons hu h =>
      obtain ⟨us', vs', rfl, hus, hvs⟩ := ih h
      exact ⟨_ :: us', vs', rfl, .cons hu hus, hvs⟩

theorem exists_of_moved_tokens {us : List Token} {items : List Item}
    (h : List.Forall₂ (Item.Moved f) (us.map .token) items) :
    ∃ vs : List Token, items = vs.map .token ∧ List.Forall₂ (Token.Moved f) us vs := by
  induction us generalizing items with
  | nil =>
    cases h
    exact ⟨[], rfl, .nil⟩
  | cons u us ih =>
    cases h with
    | cons hu h =>
      obtain ⟨vs, rfl, hvs⟩ := ih h
      cases hu with
      | token hu => exact ⟨_ :: vs, rfl, .cons hu hvs⟩

theorem map_kind_of_moved {us vs : List Token} (h : List.Forall₂ (Token.Moved f) us vs) :
    vs.map Token.kind = us.map Token.kind := by
  induction h with
  | nil => rfl
  | cons hu _ ih => rw [List.map_cons, List.map_cons, hu.kind, ih]

theorem Parser.ArgumentRead.moved {us vs : List Token} {key : String} {v : Literal}
    (h : ArgumentRead us key v) (hvs : List.Forall₂ (Token.Moved f) us vs) :
    ArgumentRead vs key v := by
  cases h with
  | plain hk htext =>
    match hvs with
    | .cons hu .nil => exact .plain (hu.kind.trans hk) (hu.text.trans htext)
  | keyed hword hcolon hk htext =>
    match hvs with
    | .cons hword' (.cons hcolon' (.cons hu .nil)) =>
      rw [← hword'.text]
      exact .keyed (hword'.kind.trans hword) (hcolon'.kind.trans hcolon) (hu.kind.trans hk)
        (hu.text.trans htext)

end Moved

/-! ## Across the end of a file -/

namespace Stream

/-- What is left of tokens before the end of a file is some of these tokens. -/
theorem exists_of_prepend_eq {fin rest : Stream} (hfin : fin.items = []) {us ws : List Token}
    (h : fin.prepend us = rest.prepend ws) : ∃ vs, us = ws ++ vs ∧ rest = fin.prepend vs := by
  obtain ⟨items, stop, line⟩ := rest
  simp only [prepend, Stream.mk.injEq, hfin, List.append_nil] at h
  obtain ⟨hitems, rfl, rfl⟩ := h
  obtain ⟨ws', vs, rfl, hws, rfl⟩ := List.map_eq_append_iff.1 hitems
  obtain rfl : ws' = ws := List.map_injective_iff.2 (fun _ _ => Item.token.inj) hws
  exact ⟨vs, rfl, by simp [prepend, hfin]⟩

theorem dropNewlines_prepend_newlines {ns : List Token} (hns : ∀ n ∈ ns, n.kind = .newline)
    (s : Stream) : (s.prepend ns).dropNewlines = s.dropNewlines := by
  induction ns with
  | nil => rfl
  | cons n ns ih =>
    obtain ⟨hn, hns⟩ := List.forall_mem_cons.1 hns
    rw [dropNewlines_cons hn, ih hns]

/-- The stream can take the place of the end of a file: a line ends, and no jump comes next. -/
structure NextLine (t : Stream) : Prop where
  ends : ∃ n, t.head = .token n ∧ (n.kind = .newline ∨ n.kind = .endOfFile)
  closes : t.dropNewlines.Closes

/-- What is left of some tokens before the stream: some of these, or, once they are used up, the
    stream without some of its newlines. -/
inductive Behind (t : Stream) : List Token → Stream → Prop where
  | tokens (vs : List Token) : Behind t vs (t.prepend vs)
  | newlines {rest : Stream} {ns : List Token} (hns : ∀ n ∈ ns, n.kind = .newline)
    (h : t = rest.prepend ns) : Behind t [] rest

end Stream

namespace Parser

section Seam

variable {fin t : Stream} {f : Nat → Nat}

/-- A head before the end of a file has one in its place: the moved token, or the end of a line. -/
theorem exists_next (ht : t.NextLine) {us us' : List Token}
    (hus : List.Forall₂ (Token.Moved f) us us') {n : Token}
    (hn : (fin.prepend us).head = .token n) :
    ∃ n', (t.prepend us').head = .token n' ∧
      (n'.kind = n.kind ∨ n'.kind = .newline ∨ n'.kind = .endOfFile) := by
  cases hus with
  | nil =>
    obtain ⟨n', hn', hk⟩ := ht.ends
    exact ⟨n', hn', .inr hk⟩
  | cons hu _ =>
    cases hn
    exact ⟨_, rfl, .inl hu.kind⟩

theorem exists_first (hfin : fin.items = []) {us us' : List Token}
    (hus : List.Forall₂ (Token.Moved f) us us') {n : Token} (hn : (fin.prepend us).head = .token n)
    (hk : n.kind ≠ .endOfFile) :
    ∃ n' vs vs', us = n :: vs ∧ us' = n' :: vs' ∧ n.Moved f n' ∧
      List.Forall₂ (Token.Moved f) vs vs' := by
  cases hus with
  | nil =>
    obtain ⟨hhead, -⟩ := Stream.head_of_items_nil hfin
    cases hhead.symm.trans hn
    exact absurd rfl hk
  | cons hu hus =>
    cases hn
    exact ⟨_, _, _, rfl, rfl, hu, hus⟩

/-- Newlines are skipped up to a token that is none, or all of them. -/
theorem exists_dropNewlines {us us' : List Token} (hus : List.Forall₂ (Token.Moved f) us us') :
    ((∀ s : Stream, (s.prepend us).dropNewlines = s.dropNewlines) ∧
        ∀ s : Stream, (s.prepend us').dropNewlines = s.dropNewlines) ∨
      ∃ w ws w' ws', w.kind ≠ .newline ∧ w.Moved f w' ∧ List.Forall₂ (Token.Moved f) ws ws' ∧
        ws.length < us.length ∧ (∀ s : Stream, (s.prepend us).dropNewlines = s.prepend (w :: ws)) ∧
        ∀ s : Stream, (s.prepend us').dropNewlines = s.prepend (w' :: ws') := by
  induction hus with
  | nil => exact .inl ⟨fun _ => rfl, fun _ => rfl⟩
  | @cons u u' us us' hu hus ih =>
    by_cases hk : u.kind = .newline
    · rcases ih with ⟨hdrop, hdrop'⟩ | ⟨w, ws, w', ws', hw, hmoved, hws, hlt, hdrop, hdrop'⟩
      · refine .inl ⟨fun s => ?_, fun s => ?_⟩
        · rw [Stream.dropNewlines_cons hk, hdrop]
        · rw [Stream.dropNewlines_cons (hu.kind.trans hk), hdrop']
      · refine .inr ⟨w, ws, w', ws', hw, hmoved, hws, Nat.lt_succ_of_lt hlt, fun s => ?_,
          fun s => ?_⟩
        · rw [Stream.dropNewlines_cons hk, hdrop]
        · rw [Stream.dropNewlines_cons (hu.kind.trans hk), hdrop']
    · exact .inr ⟨u, us, u', us', hk, hu, hus, Nat.lt_succ_self _,
        fun s => Stream.dropNewlines_of_head rfl hk,
        fun s => Stream.dropNewlines_of_head rfl (hu.kind ▸ hk)⟩

/-! ## Parts of statements -/

theorem treeAt_moved (hfin : fin.items = []) (ht : t.NextLine) {us us' : List Token}
    (hus : List.Forall₂ (Token.Moved f) us us') {c : Tree} {rest : Stream}
    (h : treeAt 0 (fin.prepend us) = .ok c rest) :
    ∃ vs vs', rest = fin.prepend vs ∧ List.Forall₂ (Token.Moved f) vs vs' ∧
      treeAt 0 (t.prepend us') = .ok (c.mapLines f) (t.prepend vs') := by
  obtain ⟨⟨ws, heq, hws⟩, hread⟩ := treeAt_sound h
  obtain ⟨vs, rfl, rfl⟩ := Stream.exists_of_prepend_eq hfin heq
  obtain ⟨ws', vs', rfl, hws', hvs'⟩ := exists_of_moved_append hus
  obtain ⟨n, hn, hapart, hoperator⟩ := hread.exists_stop
  obtain ⟨n', hn', hk⟩ := exists_next ht hvs' hn
  have hyield := (yield_mapLines f).1 c
  have hmoved : (c.mapLines f).Apart n'.kind ∧ Operator.ofToken? n'.kind = none := by
    have hwords : WordsApart (c.mapLines f).yield := hyield ▸ hapart.of_append.map_mapLines f
    rcases hk with hk | hk | hk
    · rw [hk]
      refine ⟨?_, hoperator⟩
      have := hapart.map_mapLines f
      rwa [List.map_append, ← hyield] at this
    · rw [hk]
      exact ⟨hwords.append_sign (by simp), rfl⟩
    · rw [hk]
      exact ⟨hwords.append_sign (by simp), rfl⟩
  refine ⟨vs, vs', rfl, hvs', ?_⟩
  rw [← Stream.prepend_prepend]
  exact treeAt_of_spelled (hyield ▸ hws.moved hws') ((levelled_mapLines f).1 c hread.levelled) hn'
    hmoved.1 hmoved.2

theorem commandArguments_moved (hfin : fin.items = []) (ht : t.NextLine) {us us' : List Token}
    (hus : List.Forall₂ (Token.Moved f) us us') {a b : Arguments} {rest : Stream}
    (h : commandArguments a (fin.prepend us) = .ok b rest) :
    ∃ vs vs', rest = fin.prepend vs ∧ List.Forall₂ (Token.Moved f) vs vs' ∧
      commandArguments a (t.prepend us') = .ok b (t.prepend vs') := by
  rcases commandArguments_eq_ok h with ⟨rfl, rfl, n, hn, hstop⟩ |
    ⟨ws, key, v, mid, n, heq, hread, hn, hcolon, hmore⟩
  · obtain ⟨n', hn', hk⟩ := exists_next ht hus hn
    refine ⟨us, us', rfl, hus, commandArguments_of_stop hn' fun l => ?_⟩
    rcases hk with hk | hk | hk
    · rw [hk]
      exact hstop l
    · rw [hk]
      cases l <;> simp [LiteralKind.token]
    · rw [hk]
      cases l <;> simp [LiteralKind.token]
  · obtain ⟨os, hsplit, rfl⟩ := Stream.exists_of_prepend_eq hfin heq
    have hlt : os.length < us.length := by
      have := hread.length_lt fin
      rw [Stream.length_items_prepend] at this
      rw [hsplit, List.length_append]
      omega
    obtain ⟨ws', os', rfl, hws', hos'⟩ := exists_of_moved_append (hsplit ▸ hus)
    obtain ⟨n', hn', hk⟩ := exists_next ht hos' hn
    have hcolon' : n'.kind = .colon → ws'.map Token.kind ≠ [.identifier] := by
      intro hcolon'
      rw [map_kind_of_moved hws']
      rcases hk with hk | hk | hk
      · exact hcolon (hk ▸ hcolon')
      · cases hcolon'.symm.trans hk
      · cases hcolon'.symm.trans hk
    obtain ⟨vs, vs', hrest, hvs, hmore'⟩ := commandArguments_moved hfin ht hos' hmore
    refine ⟨vs, vs', hrest, hvs, ?_⟩
    rw [← Stream.prepend_prepend, (hread.moved hws').commandArguments_eq hn' hcolon', hmore']
termination_by us.length

theorem terminator_moved (hfin : fin.items = []) (ht : t.NextLine) {us us' : List Token}
    (hus : List.Forall₂ (Token.Moved f) us us') {rest : Stream}
    (h : terminator (fin.prepend us) = .ok () rest) :
    ∃ vs vs' rest', rest = fin.prepend vs ∧ List.Forall₂ (Token.Moved f) vs vs' ∧
      terminator (t.prepend us') = .ok () rest' ∧ t.Behind vs' rest' := by
  obtain ⟨n, hn, hk⟩ := terminator_eq_ok.1 h
  cases hus with
  | nil =>
    obtain ⟨hhead, htail⟩ := Stream.head_of_items_nil hfin
    obtain rfl : rest = fin := by
      rcases hk with ⟨-, rfl⟩ | ⟨-, rfl⟩
      · exact htail
      · rfl
    obtain ⟨n', hn', hk' | hk'⟩ := ht.ends
    · refine ⟨[], [], t.tail, rfl, .nil, terminator_eq_ok.2 ⟨n', hn', .inl ⟨hk', rfl⟩⟩, ?_⟩
      exact .newlines (by simpa using hk') (Stream.eq_prepend_of_head hn' (by simp [hk']))
    · exact ⟨[], [], t, rfl, .nil, terminator_eq_ok.2 ⟨n', hn', .inr ⟨hk', rfl⟩⟩, .tokens []⟩
  | cons hu hus =>
    cases hn
    rcases hk with ⟨hk, rfl⟩ | ⟨hk, -⟩
    · exact ⟨_, _, _, rfl, hus, terminator_eq_ok.2 ⟨_, rfl, .inl ⟨hu.kind.trans hk, rfl⟩⟩,
        .tokens _⟩
    · exact absurd hk hu.ne_endOfFile

/-- Behind a statement the newlines are skipped on both sides of the seam, and an arrow is found on
    the near side only. -/
theorem jump_moved (hfin : fin.items = []) (ht : t.NextLine) {us us' : List Token}
    (hus : List.Forall₂ (Token.Moved f) us us') {done : Stream} (hdone : t.Behind us' done)
    {label : Option String} {rest : Stream}
    (h : jump (fin.prepend us).dropNewlines = .ok label rest) :
    ∃ vs vs' last rest', rest = fin.prepend vs ∧ List.Forall₂ (Token.Moved f) vs vs' ∧
      skipNewlines done = .ok () last ∧ jump last = .ok label rest' ∧ t.Behind vs' rest' := by
  rcases exists_dropNewlines hus with ⟨hdrop, hdrop'⟩ |
    ⟨w, ws, w', ws', -, hmoved, hws, hlt, hdrop, hdrop'⟩
  · have hdone' : done.dropNewlines = t.dropNewlines := by
      cases hdone with
      | tokens => exact hdrop' t
      | newlines hns heq => rw [heq, Stream.dropNewlines_prepend_newlines hns]
    obtain ⟨n, hn, -, harrow⟩ := ht.closes
    obtain ⟨ns, hns, heq, -⟩ := t.exists_newlines
    obtain ⟨hhead, -⟩ := Stream.head_of_items_nil hfin
    rw [hdrop, Stream.dropNewlines_of_head hhead (by simp [Stream.finish])] at h
    rcases jump_eq_ok.1 h with ⟨-, -, -, rfl, rfl⟩ | ⟨arrow, word, harrow', hk, -⟩
    · exact ⟨[], [], t.dropNewlines, t.dropNewlines, rfl, .nil,
        skipNewlines_eq_ok.2 ⟨⟨n, hn⟩, hdone'.symm⟩, jump_eq_ok.2 (.inl ⟨n, hn, harrow, rfl, rfl⟩),
        .newlines hns heq⟩
    · cases hhead.symm.trans harrow'
      cases hk
  · -- a token is left, so nothing of the seam has been taken
    obtain rfl : done = t.prepend us' := by
      cases hdone with
      | tokens => rfl
      | newlines =>
        cases hus
        exact absurd hlt (Nat.not_lt_zero _)
    have hlast : skipNewlines (t.prepend us') = .ok () (t.prepend (w' :: ws')) :=
      skipNewlines_eq_ok.2 ⟨⟨w', rfl⟩, (hdrop' t).symm⟩
    rw [hdrop] at h
    rcases jump_eq_ok.1 h with ⟨n, hn, hk, rfl, rfl⟩ |
      ⟨arrow, word, harrow, hk, hword, hwordk, hend, rfl⟩
    · cases hn
      exact ⟨w :: ws, w' :: ws', _, _, rfl, .cons hmoved hws, hlast,
        jump_eq_ok.2 (.inl ⟨w', rfl, hmoved.kind ▸ hk, rfl, rfl⟩), .tokens _⟩
    · cases harrow
      obtain ⟨word', vs, vs', rfl, rfl, hword', hvs⟩ :=
        exists_first hfin hws hword (by simp [hwordk])
      obtain ⟨os, os', rest', hrest, hos, hend', hbehind⟩ := terminator_moved hfin ht hvs hend
      exact ⟨os, os', _, rest', hrest, hos, hlast, jump_eq_ok.2 (.inr ⟨w', word', rfl,
        hmoved.kind.trans hk, rfl, hword'.kind.trans hwordk, hend', by rw [hword'.text]⟩), hbehind⟩

/-! ## Statements -/

/-- A statement starts with a token that neither ends a line nor makes a jump. -/
theorem exists_head_of_statement {s rest : Stream} {st : Statement}
    (h : statement s = .ok st rest) :
    ∃ n, s.head = .token n ∧ n.kind ≠ .newline ∧ n.kind ≠ .arrow ∧ n.kind ≠ .endOfFile := by
  cases statement_eq_ok.1 h with
  | @dialogue n hhead hk => exact ⟨n, hhead, by simp [hk]⟩
  | @command n a mid hhead hk => exact ⟨n, hhead, by simp [hk]⟩
  | @conditional n c behind start done last body label hhead hk => exact ⟨n, hhead, by simp [hk]⟩

theorem statement_moved (hfin : fin.items = []) (ht : t.NextLine) {us us' : List Token}
    (hus : List.Forall₂ (Token.Moved f) us us') {st : Statement} {rest : Stream}
    (h : statement (fin.prepend us) = .ok st rest) :
    ∃ vs vs' rest', rest = fin.prepend vs ∧ List.Forall₂ (Token.Moved f) vs vs' ∧
      statement (t.prepend us') = .ok (st.mapLines f) rest' ∧ t.Behind vs' rest' := by
  induction st generalizing us us' rest with
  | dialogue text line =>
    cases statement_eq_ok.1 h with
    | @dialogue n hhead hk hend =>
      obtain ⟨n', vs, vs', rfl, rfl, hn, hvs⟩ := exists_first hfin hus hhead (by simp [hk])
      obtain ⟨os, os', rest', hrest, hos, hend', hbehind⟩ := terminator_moved hfin ht hvs hend
      refine ⟨os, os', rest', hrest, hos, ?_, hbehind⟩
      rw [Statement.mapLines, ← hn.text, ← hn.line]
      exact statement_eq_ok.2 (.dialogue rfl (hn.kind.trans hk) hend')
  | command name a line =>
    cases statement_eq_ok.1 h with
    | @command n a mid hhead hk ha hend =>
      obtain ⟨n', vs, vs', rfl, rfl, hn, hvs⟩ := exists_first hfin hus hhead (by simp [hk])
      obtain ⟨ms, ms', rfl, hms, ha'⟩ := commandArguments_moved hfin ht hvs ha
      obtain ⟨os, os', rest', hrest, hos, hend', hbehind⟩ := terminator_moved hfin ht hms hend
      refine ⟨os, os', rest', hrest, hos, ?_, hbehind⟩
      rw [Statement.mapLines, ← hn.text, ← hn.line]
      exact statement_eq_ok.2 (.command rfl (hn.kind.trans hk) ha' hend')
  | conditional condition body label line ih =>
    cases statement_eq_ok.1 h with
    | @conditional n c behind start done last body label hhead hk hc hstart hbody hlast hlabel =>
      obtain ⟨n', vs, vs', rfl, rfl, hn, hvs⟩ := exists_first hfin hus hhead (by simp [hk])
      obtain ⟨bs, bs', rfl, hbs, hc'⟩ := treeAt_moved hfin ht hvs hc
      obtain ⟨-, rfl⟩ := skipNewlines_eq_ok.1 hstart
      obtain ⟨-, rfl⟩ := skipNewlines_eq_ok.1 hlast
      obtain ⟨first, hfirst, -, -, hfirstk⟩ := exists_head_of_statement hbody
      rcases exists_dropNewlines hbs with ⟨hdrop, -⟩ |
        ⟨w, ws, w', ws', -, hw, hws, -, hdrop, hdrop'⟩
      · -- there is no body in the newlines before the end of the file
        obtain ⟨hhead, -⟩ := Stream.head_of_items_nil hfin
        rw [hdrop, Stream.dropNewlines_of_head hhead (by simp [Stream.finish]), hhead] at hfirst
        cases hfirst
        exact absurd rfl hfirstk
      · rw [hdrop] at hbody
        obtain ⟨ds, ds', done', rfl, hds, hbody', hbehind⟩ := ih (.cons hw hws) hbody
        obtain ⟨os, os', last', rest', hrest, hos, hlast', hlabel', hbehind'⟩ :=
          jump_moved hfin ht hds hbehind hlabel
        refine ⟨os, os', rest', hrest, hos, ?_, hbehind'⟩
        have hstart' : skipNewlines (t.prepend bs') = .ok () (t.prepend (w' :: ws')) :=
          skipNewlines_eq_ok.2 ⟨⟨w', rfl⟩, (hdrop' t).symm⟩
        rw [Statement.mapLines, ← Expression.ofTree_mapLines, ← hn.line]
        exact statement_eq_ok.2
          (.conditional rfl (hn.kind.trans hk) hc' hstart' hbody' hlast' hlabel')

/-- Newlines before statements are passed over. -/
theorem statements_of_newlines {s rest : Stream} {ns : List Token}
    (hns : ∀ n ∈ ns, n.kind = .newline) {sts : List Statement}
    (h : statements (s.prepend ns) = .ok sts rest) : statements s = .ok sts rest := by
  induction ns with
  | nil => exact h
  | cons n ns ih =>
    obtain ⟨hn, hns⟩ := List.forall_mem_cons.1 hns
    obtain ⟨m, hm, ⟨-, htail⟩ | ⟨hk, -⟩ | ⟨hk, -⟩⟩ := statements_eq_ok.1 h
    · exact ih hns htail
    · cases hm
      cases hn.symm.trans hk
    · cases hm
      exact absurd hn hk

/-- **Statements are read on behind the end of their file**, and on other lines. -/
theorem statements_moved (hfin : fin.items = []) (ht : t.NextLine) {us us' : List Token}
    (hus : List.Forall₂ (Token.Moved f) us us') {sts more : List Statement} {rest last : Stream}
    (h : statements (fin.prepend us) = .ok sts rest) (hmore : statements t = .ok more last) :
    statements (t.prepend us') = .ok (sts.map (Statement.mapLines f) ++ more) last := by
  obtain ⟨n, hn, ⟨hk, htail⟩ | ⟨hk, rfl, -⟩ | ⟨hnewline, hend, st, mid, sts', hst, hsts', rfl⟩⟩ :=
    statements_eq_ok.1 h
  · obtain ⟨n', vs, vs', hsplit, rfl, hn', hvs⟩ := exists_first hfin hus hn (by simp [hk])
    have hlt : vs.length < us.length := by rw [hsplit, List.length_cons]; omega
    rw [hsplit] at htail
    exact statements_eq_ok.2
      ⟨n', rfl, .inl ⟨hn'.kind.trans hk, statements_moved hfin ht hvs htail hmore⟩⟩
  · cases hus with
    | nil => exact hmore
    | cons hu _ =>
      cases hn
      exact absurd hk hu.ne_endOfFile
  · obtain ⟨n', _, _, -, rfl, hn', -⟩ := exists_first hfin hus hn hend
    obtain ⟨vs, vs', rest', rfl, hvs, hst', hbehind⟩ := statement_moved hfin ht hus hst
    have hlt : vs.length < us.length := by
      have := Parsers.advance_whole.statement _ st _ hst
      simp only [Stream.length_items_prepend] at this
      omega
    have hrest : statements rest' = .ok (sts'.map (Statement.mapLines f) ++ more) last := by
      cases hbehind with
      | tokens => exact statements_moved hfin ht hvs hsts' hmore
      | newlines hns heq =>
        cases hvs
        have hnil := statements_moved hfin ht .nil hsts' hmore
        exact statements_of_newlines hns (heq ▸ hnil)
    exact statements_eq_ok.2 ⟨n', rfl, .inr (.inr ⟨hn'.kind ▸ hnewline, hn'.kind ▸ hend, _, rest',
      _, hst', hrest, rfl⟩)⟩
termination_by us.length

/-- No statement starts with an arrow. -/
theorem closes_of_statements {s rest : Stream} {sts : List Statement}
    (h : statements s = .ok sts rest) : s.dropNewlines.Closes := by
  obtain ⟨n, hn, ⟨hk, htail⟩ | ⟨hk, -⟩ | ⟨-, -, st, mid, more, hst, -⟩⟩ := statements_eq_ok.1 h
  · have hlt := Stream.length_tail_of_head hn (by simp [hk])
    rw [Stream.eq_prepend_of_head hn (by simp [hk]), Stream.dropNewlines_cons hk]
    exact closes_of_statements htail
  · rw [Stream.dropNewlines_of_head hn (by simp [hk])]
    exact ⟨n, hn, by simp [hk]⟩
  · obtain ⟨m, hm, hnewline, harrow, -⟩ := exists_head_of_statement hst
    rw [Stream.dropNewlines_of_head hm hnewline]
    exact ⟨m, hm, hnewline, harrow⟩
termination_by s.items.length

end Seam

end Parser

end StageScript
