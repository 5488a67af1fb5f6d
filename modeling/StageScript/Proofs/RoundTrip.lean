import StageScript.Proofs.Writing

set_option autoImplicit false

/-! # Reading what was written

A program that can be written is read back from its text: `Statement.readBack` says so of a
statement with anything behind it that starts on a new line, by induction on the statement, and
`Program.parse_written` of whole programs, up to the lines on which their parts stand. -/

namespace StageScript

open Scanner

/-! ## Between statements -/

/-- A statement can end before the characters: nothing or a newline. -/
def Ends (cs : List Char) : Prop := cs = [] ∨ ∃ more, cs = '\n' :: more

/-- The stream behind the newline, if there is one. -/
def streamBehind (p : Place) : List Char → Stream
  | [] => streamAt p []
  | c :: cs => streamAt (p.after c) cs

/-- What is written behind a newline each starts on a new line, if it is anything. -/
theorem ends_flatMap (ws : List (List Char)) : Ends (ws.flatMap ('\n' :: ·)) := by
  cases ws with
  | nil => exact .inl rfl
  | cons => exact .inr ⟨_, rfl⟩

theorem Ends.separated {cs : List Char} (h : Ends cs) : Separated cs := by
  rcases h with rfl | ⟨more, rfl⟩
  · exact separated_nil
  · exact separated_cons (by decide +kernel) more

/-- What has a blank before each of its parts is separated from a word before it. -/
theorem Ends.separated_behind {α : Type} {cs : List Char} (h : Ends cs) (write : α → List Char)
    (xs : List α) : Separated (xs.flatMap (fun x => ' ' :: write x) ++ cs) := by
  cases xs with
  | nil => exact h.separated
  | cons => exact separated_cons (by decide +kernel) _

/-- A statement that ends here is followed by a newline or by the end of the file. -/
theorem Ends.exists_head {cs : List Char} (h : Ends cs) (p : Place) :
    ∃ n, (streamAt p cs).head = .token n ∧ (n.kind = .newline ∨ n.kind = .endOfFile) := by
  rcases h with rfl | ⟨more, rfl⟩
  · exact ⟨_, rfl, .inr rfl⟩
  · rw [streamAt_mark .newline rfl]
    exact ⟨_, rfl, .inl rfl⟩

theorem Ends.terminator {cs : List Char} (h : Ends cs) (p : Place) :
    Parser.terminator (streamAt p cs) = .ok () (streamBehind p cs) := by
  rcases h with rfl | ⟨more, rfl⟩
  · exact Parser.terminator_eq_ok.2 ⟨_, rfl, .inr ⟨rfl, rfl⟩⟩
  · rw [streamAt_mark .newline rfl]
    exact Parser.terminator_eq_ok.2 ⟨_, rfl, .inl ⟨rfl, rfl⟩⟩

/-! ## Conditions -/

theorem Token.spells_tokenAt (p : Place) (x : Symbol) :
    (tokenAt p x.kind x.written).Spells (x.withLine p.line) := by
  cases x with
  | literal l line => exact ⟨rfl, String.ofList_toList, rfl⟩
  | name text line => exact ⟨rfl, String.ofList_toList, rfl⟩
  | key text => exact ⟨rfl, String.ofList_toList⟩
  | sign kind => exact rfl

/-- Symbols between blanks are scanned as tokens on one line. -/
theorem streamAt_symbols {xs : List Symbol} (hxs : ∀ x ∈ xs, x.Writable) {rest : List Char}
    (hrest : Separated rest) (p : Place) :
    ∃ us q, streamAt p (separatedBy ' ' (xs.map Symbol.written) ++ rest) =
      (streamAt q rest).prepend us ∧ Spelled us (xs.map (Symbol.withLine p.line)) := by
  induction xs generalizing p with
  | nil => exact ⟨[], p, rfl, .nil⟩
  | cons x xs ih =>
    obtain ⟨hx, hline⟩ := hxs x List.mem_cons_self
    cases xs with
    | nil =>
      exact ⟨_, _, streamAt_lexeme hx hrest, .cons (Token.spells_tokenAt p x) .nil⟩
    | cons y ys =>
      obtain ⟨us, q, hus, hspelled⟩ :=
        ih (fun z hz => hxs z (List.mem_cons_of_mem _ hz)) ((p.afterAll x.written).after ' ')
      -- neither the symbol nor the blank ends the line
      have hplace : ((p.afterAll x.written).after ' ').line = p.line := hx.line_afterAll hline p
      rw [hplace] at hspelled
      refine ⟨tokenAt p x.kind x.written :: us, q, ?_, .cons (Token.spells_tokenAt p x) hspelled⟩
      rw [List.map_cons, List.map_cons, separatedBy_cons_cons, List.append_assoc, List.cons_append,
        streamAt_lexeme hx (separated_cons (by decide +kernel) _), streamAt_gap rfl,
        ← List.map_cons, hus, Stream.prepend_prepend]
      rfl

/-- A condition is read back from a line of its own. -/
theorem Tree.Writable.readBack {t : Tree} (ht : t.Writable) (p : Place) (rest : List Char) :
    ∃ q, Parser.treeAt 0 (streamAt p ((Expression.ofTree t).written ++ '\n' :: rest)) =
      .ok (t.withLine p.line) (streamAt q ('\n' :: rest)) := by
  have hrest : Separated ('\n' :: rest) := separated_cons (by decide +kernel) rest
  obtain ⟨us, q, hus, hspelled⟩ := streamAt_symbols ht.symbols hrest p
  rw [← yield_withLine] at hspelled
  have happart : WordsApart (t.withLine p.line).yield := by
    rw [yield_withLine]
    exact ht.apart.map_withLine p.line
  refine ⟨q, ?_⟩
  rw [Expression.written, Expression.tree?_ofTree]
  dsimp only
  rw [hus, streamAt_mark .newline rfl]
  exact Parser.treeAt_of_spelled hspelled (ht.levelled.withLine p.line) rfl
    (happart.append_sign (by simp [tokenAt])) rfl

/-! ## Commands -/

/-- Arguments are read back behind those that have been read, since no key comes twice. -/
theorem commandArguments_written {entries : List (String × Literal)}
    (done : List (String × Literal)) (hnodup : ((done ++ entries).map Prod.fst).Nodup)
    (hentries : ∀ entry ∈ entries, Lexeme .identifier entry.1.toList ∧
      Lexeme entry.2.kind.token entry.2.text.toList) {cs : List Char} (hcs : Ends cs) (p : Place) :
    ∃ q, Parser.commandArguments ⟨done⟩
        (streamAt p (entries.flatMap (fun entry => ' ' :: Arguments.writtenEntry entry) ++ cs)) =
      .ok ⟨done ++ entries⟩ (streamAt q cs) := by
  induction entries generalizing done p with
  | nil =>
    obtain ⟨n, hn, hk⟩ := hcs.exists_head p
    refine ⟨p, ?_⟩
    rw [List.append_nil]
    refine Parser.commandArguments_of_stop hn fun l hl => ?_
    rw [hl] at hk
    cases l <;> simp [LiteralKind.token] at hk
  | cons entry entries ih =>
    obtain ⟨key, v⟩ := entry
    obtain ⟨hkey, hv⟩ := hentries _ List.mem_cons_self
    have hmore := hcs.separated_behind Arguments.writtenEntry entries
    have hnew : key ∉ done.map Prod.fst := by
      rw [List.map_append, List.nodup_append] at hnodup
      intro hmem
      exact hnodup.2.2 key hmem key (by simp) rfl
    have hassoc : done ++ (key, v) :: entries = (done ++ [(key, v)]) ++ entries := by simp
    rw [hassoc] at hnodup ⊢
    -- a blank, the key, the colon and the value are scanned one after the other
    have hscan : ∃ word colon u q, streamAt p ((((key, v) :: entries).flatMap fun entry =>
          ' ' :: Arguments.writtenEntry entry) ++ cs) =
        (streamAt q
          (entries.flatMap (fun entry => ' ' :: Arguments.writtenEntry entry) ++ cs)).prepend
            [word, colon, u] ∧ word.kind = .identifier ∧ word.text = key ∧ colon.kind = .colon ∧
        u.kind = v.kind.token ∧ u.text = v.text := by
      let keyPlace := p.after ' '
      let colonPlace := keyPlace.afterAll key.toList
      let valuePlace := colonPlace.after '：'
      refine ⟨tokenAt keyPlace .identifier key.toList, tokenAt colonPlace .colon ['：'],
        tokenAt valuePlace v.kind.token v.text.toList, valuePlace.afterAll v.text.toList, ?_, rfl,
        String.ofList_toList, rfl, rfl, String.ofList_toList⟩
      rw [List.flatMap_cons, List.append_assoc, Arguments.writtenEntry, List.cons_append,
        streamAt_gap rfl, List.append_assoc, List.cons_append,
        streamAt_lexeme hkey (separated_cons (by decide +kernel) _),
        streamAt_mark .colon rfl, streamAt_lexeme hv hmore, Stream.prepend_prepend,
        Stream.prepend_prepend]
      rfl
    obtain ⟨word, colon, u, q, hstream, hword, hwordtext, hcolon, hu, hutext⟩ := hscan
    rw [hstream, Parser.commandArguments_of_keyed hword hcolon hu hutext, hwordtext,
      Arguments.insert, Arguments.insertEntry_of_not_mem hnew]
    exact ih _ hnodup (fun other hother => hentries other (List.mem_cons_of_mem _ hother)) q

/-! ## Statements -/

/-- A statement starts with a token that starts one. -/
theorem Statement.Writable.exists_head {st : Statement} (hst : st.Writable) {cs : List Char}
    (hcs : Ends cs) (p : Place) :
    ∃ n, (streamAt p (st.written ++ cs)).head = .token n ∧ n.kind ≠ .newline ∧ n.kind ≠ .arrow ∧
      n.kind ≠ .endOfFile := by
  cases st with
  | dialogue text line =>
    rw [Statement.written, streamAt_lexeme hst hcs.separated]
    exact ⟨_, rfl, by simp [tokenAt]⟩
  | command name arguments line =>
    rw [Statement.written, separatedBy_cons, List.flatMap_map, List.append_assoc,
      streamAt_lexeme hst.1 (hcs.separated_behind Arguments.writtenEntry arguments.entries)]
    exact ⟨_, rfl, by simp [tokenAt]⟩
  | conditional condition body jump line =>
    cases jump with
    | none =>
      rw [Statement.written, List.cons_append, streamAt_mark .guardMark rfl]
      exact ⟨_, rfl, by simp [tokenAt]⟩
    | some label =>
      rw [Statement.written, List.cons_append, streamAt_mark .guardMark rfl]
      exact ⟨_, rfl, by simp [tokenAt]⟩

/-- Newlines are skipped where there are none. -/
theorem Parser.skipNewlines_of_head {s : Stream} {n : Token} (h : s.head = .token n)
    (hn : n.kind ≠ .newline) : Parser.skipNewlines s = .ok () s :=
  Parser.skipNewlines_eq_ok.2 ⟨⟨n, h⟩, (Stream.dropNewlines_of_head h hn).symm⟩

/-- Behind the newline after a condition its body is found. -/
theorem skipNewlines_written {body : Statement} (hbody : body.Writable) {cs : List Char}
    (hcs : Ends cs) (p : Place) :
    Parser.skipNewlines (streamAt p ('\n' :: (body.written ++ cs))) =
      .ok () (streamAt (p.after '\n') (body.written ++ cs)) := by
  obtain ⟨n, hn, hnewline, -⟩ := hbody.exists_head hcs (p.after '\n')
  refine Parser.skipNewlines_eq_ok.2 ⟨⟨n, hn⟩, ?_⟩
  rw [streamAt_mark .newline rfl, Stream.dropNewlines_prepend (by simp [tokenAt])]
  rw [hn]
  simpa [Parser.isNewline] using hnewline

theorem dialogue_written {text : String} (htext : Lexeme .string text.toList) {cs : List Char}
    (hcs : Ends cs) (p : Place) (line : Nat) :
    ∃ q, Parser.statement (streamAt p ((Statement.dialogue text line).written ++ cs)) =
      .ok (.dialogue text p.line) (streamBehind q cs) := by
  have hread := Parser.StatementRead.dialogue (s := (streamAt (p.afterAll text.toList) cs).prepend
    [tokenAt p .string text.toList]) rfl rfl (hcs.terminator _)
  rw [Statement.written, streamAt_lexeme htext hcs.separated]
  rw [show (tokenAt p .string text.toList).text = text from String.ofList_toList] at hread
  exact ⟨_, Parser.statement_eq_ok.2 hread⟩

theorem command_written {name : String} (hname : Lexeme .identifier name.toList) {a : Arguments}
    (ha : a.Writable) {cs : List Char} (hcs : Ends cs) (p : Place) (line : Nat) :
    ∃ q, Parser.statement (streamAt p ((Statement.command name a line).written ++ cs)) =
      .ok (.command name a p.line) (streamBehind q cs) := by
  obtain ⟨q, hq⟩ := commandArguments_written [] ha.nodup ha.lexemes hcs (p.afterAll name.toList)
  have hmore := hcs.separated_behind Arguments.writtenEntry a.entries
  have hread := Parser.StatementRead.command (s := (streamAt (p.afterAll name.toList)
    (a.entries.flatMap (fun entry => ' ' :: Arguments.writtenEntry entry) ++ cs)).prepend
      [tokenAt p .identifier name.toList]) rfl rfl hq (hcs.terminator q)
  rw [Statement.written, separatedBy_cons, List.flatMap_map, List.append_assoc,
    streamAt_lexeme hname hmore]
  rw [show (tokenAt p .identifier name.toList).text = name from String.ofList_toList] at hread
  exact ⟨q, Parser.statement_eq_ok.2 hread⟩

/-- Behind a guard and its condition the body is read, and behind the body its jump. -/
theorem conditional_written {t : Tree} (ht : t.Writable) {body : Statement} (hbody : body.Writable)
    {more : List Char} (hmore : Ends more) (p : Place) :
    ∃ q, ∀ {body' : Statement} {done last rest : Stream} {label : Option String},
      Parser.statement (streamAt q (body.written ++ more)) = .ok body' done →
      Parser.skipNewlines done = .ok () last → Parser.jump last = .ok label rest →
      Parser.statement (streamAt p ('※' :: ((Expression.ofTree t).written ++
          '\n' :: (body.written ++ more)))) =
        .ok (.conditional (.ofTree (t.withLine (p.after '※').line)) body' label p.line) rest := by
  obtain ⟨q, hq⟩ := ht.readBack (p.after '※') (body.written ++ more)
  refine ⟨q.after '\n', fun hstatement hlast hlabel => ?_⟩
  have hread := Parser.StatementRead.conditional (s := (streamAt (p.after '※')
    ((Expression.ofTree t).written ++ '\n' :: (body.written ++ more))).prepend
      [tokenAt p .guardMark ['※']]) rfl rfl hq (skipNewlines_written hbody hmore q) hstatement hlast
        hlabel
  rw [streamAt_mark .guardMark rfl]
  exact Parser.statement_eq_ok.2 hread

/-- A jump is read behind the newline that ends the statement before it. -/
theorem jump_written {label : String} (hlabel : Lexeme .identifier label.toList) {cs : List Char}
    (hcs : Ends cs) (p : Place) :
    ∃ last q, Parser.skipNewlines (streamBehind p ('\n' :: '→' :: (label.toList ++ cs))) =
        .ok () last ∧ Parser.jump last = .ok (some label) (streamBehind q cs) := by
  have hscan : streamBehind p ('\n' :: '→' :: (label.toList ++ cs)) =
      (streamAt (((p.after '\n').after '→').afterAll label.toList) cs).prepend
        [tokenAt (p.after '\n') .arrow ['→'],
          tokenAt ((p.after '\n').after '→') .identifier label.toList] := by
    rw [streamBehind, streamAt_mark .arrow rfl, streamAt_lexeme hlabel hcs.separated,
      Stream.prepend_prepend]
    rfl
  rw [hscan]
  refine ⟨_, ((p.after '\n').after '→').afterAll label.toList,
    Parser.skipNewlines_of_head rfl (by simp [tokenAt]), ?_⟩
  exact Parser.jump_eq_ok.2 (.inr ⟨_, _, rfl, rfl, rfl, rfl, hcs.terminator _,
    congrArg some String.ofList_toList.symm⟩)

/-- **A statement is read back**, and what stands behind the end of its line is left. -/
theorem Statement.Writable.readBack {st : Statement} (hst : st.Writable) {cs : List Char}
    (hcs : Ends cs) (hclose : st.IsOpen → ∀ q, (streamBehind q cs).Closes) (p : Place) :
    ∃ st' q, Parser.statement (streamAt p (st.written ++ cs)) = .ok st' (streamBehind q cs) ∧
      st'.withLine 0 = st.withLine 0 := by
  induction st generalizing cs p with
  | dialogue text line =>
    obtain ⟨q, hq⟩ := dialogue_written hst hcs p line
    exact ⟨_, q, hq, rfl⟩
  | command name arguments line =>
    obtain ⟨q, hq⟩ := command_written hst.1 hst.2 hcs p line
    exact ⟨_, q, hq, rfl⟩
  | conditional condition body jump line ih =>
    obtain ⟨⟨t, rfl, ht⟩, hbody, hjump⟩ := hst
    have hlines : ∀ {body' : Statement} (label : Option String),
        body'.withLine 0 = body.withLine 0 →
        (Statement.conditional (.ofTree (t.withLine (p.after '※').line)) body' label
          p.line).withLine 0 = (Statement.conditional (.ofTree t) body label line).withLine 0 := by
      intro body' label hbody'
      rw [withLine, withLine, Expression.ofTree_withLine, Expression.withLine_withLine, hbody']
    cases jump with
    | none =>
      -- nothing behind the body takes its place before what follows the whole statement
      obtain ⟨q, hq⟩ := conditional_written ht hbody hcs p
      obtain ⟨body', r, hread, hbody'⟩ := ih hbody hcs (fun _ => hclose trivial) q
      obtain ⟨n, hn, hnewline, harrow⟩ := hclose trivial r
      refine ⟨_, r, ?_, hlines none hbody'⟩
      rw [Statement.written, List.cons_append, List.append_assoc, List.cons_append]
      exact hq hread (Parser.skipNewlines_of_head hn hnewline)
        (Parser.jump_eq_ok.2 (.inl ⟨n, hn, harrow, rfl, rfl⟩))
    | some label =>
      -- the body is not open, so that it leaves the arrow to this guard
      obtain ⟨hlabel, hclosed⟩ := hjump label rfl
      have hmore : Ends ('\n' :: '→' :: (label.toList ++ cs)) := .inr ⟨_, rfl⟩
      obtain ⟨q, hq⟩ := conditional_written ht hbody hmore p
      obtain ⟨body', r, hread, hbody'⟩ := ih hbody hmore (fun hopen => absurd hopen hclosed) q
      obtain ⟨last, end', hlast, hend⟩ := jump_written hlabel hcs r
      refine ⟨_, end', ?_, hlines (some label) hbody'⟩
      have htext : (Statement.conditional (.ofTree t) body (some label) line).written ++ cs =
          '※' :: ((Expression.ofTree t).written ++
            '\n' :: (body.written ++ '\n' :: '→' :: (label.toList ++ cs))) := by
        simp [Statement.written]
      rw [htext]
      exact hq hread hlast hend

/-! ## Programs -/

/-- Behind the newline before them the statements of a program close the one before it. -/
theorem closes_written {sts : List Statement} (hsts : ∀ st ∈ sts, st.Writable) (p : Place) :
    (streamAt p (separatedBy '\n' (sts.map Statement.written))).Closes := by
  cases sts with
  | nil => exact ⟨_, rfl, by simp [Stream.finish], by simp [Stream.finish]⟩
  | cons st sts =>
    obtain ⟨n, hn, hnewline, harrow, -⟩ :=
      (hsts st List.mem_cons_self).exists_head (ends_flatMap (sts.map Statement.written)) p
    rw [List.map_cons, separatedBy_cons]
    exact ⟨n, hn, hnewline, harrow⟩

/-- Statements are read back from lines of their own up to the end of the file. -/
theorem statements_written {sts : List Statement} (hsts : ∀ st ∈ sts, st.Writable) (p : Place) :
    ∃ sts' rest, Parser.statements (streamAt p (separatedBy '\n' (sts.map Statement.written))) =
        .ok sts' rest ∧ sts'.map (Statement.withLine 0) = sts.map (Statement.withLine 0) := by
  induction sts generalizing p with
  | nil =>
    exact ⟨[], _, Parser.statements_eq_ok.2 ⟨_, rfl, .inr (.inl ⟨rfl, rfl, rfl⟩)⟩, rfl⟩
  | cons st sts ih =>
    have hst := hsts st List.mem_cons_self
    have hrest : ∀ other ∈ sts, other.Writable := fun other h =>
      hsts other (List.mem_cons_of_mem _ h)
    let cs := (sts.map Statement.written).flatMap ('\n' :: ·)
    have hcs : Ends cs := ends_flatMap _
    -- behind the newline that ends the first statement the others are written as before
    have hnext : ∀ q, ∃ r, streamBehind q cs =
        streamAt r (separatedBy '\n' (sts.map Statement.written)) := by
      intro q
      cases sts with
      | nil => exact ⟨q, rfl⟩
      | cons other others => exact ⟨q.after '\n', by rw [List.map_cons, separatedBy_cons]; rfl⟩
    have hclose : ∀ q, (streamBehind q cs).Closes := by
      intro q
      obtain ⟨r, hr⟩ := hnext q
      rw [hr]
      exact closes_written hrest r
    obtain ⟨st', q, hread, hst'⟩ := hst.readBack hcs (fun _ => hclose) p
    obtain ⟨r, hr⟩ := hnext q
    obtain ⟨sts', rest, hmore, hsts'⟩ := ih hrest r
    obtain ⟨n, hn, hnewline, -, hend⟩ := hst.exists_head hcs p
    rw [hr] at hread
    refine ⟨st' :: sts', rest, ?_, by rw [List.map_cons, List.map_cons, hst', hsts']⟩
    rw [List.map_cons, separatedBy_cons]
    exact Parser.statements_eq_ok.2
      ⟨n, hn, .inr (.inr ⟨hnewline, hend, st', _, sts', hread, hmore, rfl⟩)⟩

/-- **A program that has been parsed is read back from what is written of it**, up to lines: the
    same statements with the same names, arguments, jumps and lists of nodes. -/
theorem Program.parse_written {source : String} {p : Program} (h : Program.parse source = .ok p) :
    ∃ p', Program.parse p.written = .ok p' ∧ p'.withoutLines = p.withoutLines := by
  obtain ⟨sts, rest, hread, hsts⟩ :=
    statements_written (Program.writable_of_parse h) Place.start
  refine ⟨⟨sts⟩, Program.parse_eq_ok.2 ⟨rest, ?_⟩, congrArg Program.mk hsts⟩
  rw [Program.written, Stream.ofString, String.toList_ofList]
  exact hread

/-- A jump of the inner of two guards, a call with a key, and a key that is written twice. -/
theorem Program.parse_written_nested :
    ∃ p, Program.parse "※a＝１ または b\n※f(k：c) 「x」\n→l\n命令 x k：2 k：3\n" = .ok p ∧
      ∃ p', Program.parse p.written = .ok p' ∧ p'.withoutLines = p.withoutLines := by
  have hok : (Program.parse "※a＝１ または b\n※f(k：c) 「x」\n→l\n命令 x k：2 k：3\n").isOk = true := by
    decide +kernel
  cases h : Program.parse "※a＝１ または b\n※f(k：c) 「x」\n→l\n命令 x k：2 k：3\n" with
  | ok p => exact ⟨p, rfl, Program.parse_written h⟩
  | error e =>
    rw [h] at hok
    cases hok

end StageScript
