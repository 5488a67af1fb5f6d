import StageScript.Proofs.Acceptance

set_option autoImplicit false

/-! # Where syntax errors stand

A syntax error stands at the first item with which no script goes on. The recognizer is stuck
there, and whatever it has read up to there can be completed; `exists_scanned` writes the completed
kinds as a text, so that the completion is a script that is parsed and not only one that is
derived. -/

namespace StageScript

/-! ## The places of items -/

/-- The span of the item starts behind some characters of the text, and its line is that of these
    characters. The start is a word, which counts no further than its size. -/
def Item.StandsIn (x : Item) (text : List Char) : Prop :=
  ∃ before after, text = before ++ after ∧
    x.span.first = Text.byteCount before % 4294967296 ∧ x.line = 1 + before.count '\n'

theorem Stream.standsIn_of_mem {text : List Char} {x : Item} (h : x ∈ (ofText text).toList) :
    x.StandsIn text := by
  have hplace : ∀ (before after : List Char) {stop : Nat}, text = before ++ after →
      x.span = Span.between (Scanner.Place.start.afterAll before).offset stop →
      x.line = (Scanner.Place.start.afterAll before).line → x.StandsIn text := by
    intro before after stop htext hspan hline
    refine ⟨before, after, htext, ?_, ?_⟩
    · rw [hspan, Span.first_between, Scanner.Place.afterAll_eq, Scanner.Place.start, Nat.zero_add]
    · rw [hline, Scanner.Place.afterAll_eq, Scanner.Place.start]
  rcases List.mem_append.1 h with hitem | hfinish
  · obtain ⟨before, c, rest, htext, hshape⟩ := Scanner.exists_shape_of_mem hitem
    exact hplace before _ htext (Scanner.Shape.span_of_item? hshape)
      (Scanner.Shape.line_of_item? hshape)
  · obtain rfl := List.mem_singleton.1 hfinish
    exact hplace text [] (List.append_nil _).symm rfl rfl

/-! ## A text for every completion -/

/-- The kinds of the items of a stream; a lexical error has none. -/
def Stream.kinds (s : Stream) : List (Option TokenKind) := s.toList.map Item.kind?

namespace Scanner

/-- Tokens of any kinds can be scanned. -/
theorem exists_scanned (ks : List TokenKind) (h : TokenKind.endOfFile ∉ ks) (p : Place) :
    ∃ cs ts, (streamAt p cs).toList = List.map Item.token ts ∧
      ts.map Token.kind = ks ++ [.endOfFile] := by
  induction ks generalizing p with
  | nil => exact ⟨[], [(streamAt p []).finish], rfl, rfl⟩
  | cons k ks ih =>
    obtain ⟨hk, hks⟩ := not_or.1 (List.mem_cons.not.1 h)
    obtain ⟨cs, ts, hts, hkinds⟩ := ih hks ((p.afterAll (spelling k)).after ' ')
    refine ⟨spelling k ++ ' ' :: cs, tokenAt p k (spelling k) :: ts, ?_, ?_⟩
    · rw [streamAt_lexeme (lexeme_spelling (Ne.symm hk)) (separated_cons (by decide +kernel) cs),
        Stream.toList_prepend, streamAt_gap (by rfl), hts]
      rfl
    · rw [List.map_cons, hkinds]
      rfl

end Scanner

namespace Recognizer

theorem argumentStep_ne_accepted {guards : Nat} {frames : List Frame} {k : TokenKind} :
    argumentStep guards frames k ≠ some .accepted := by
  cases k <;> simp [argumentStep, operandStep]

theorem completeStep_ne_accepted {guards : Nat} {frames : List Frame} {k : TokenKind} :
    completeStep guards frames k ≠ some .accepted := by
  unfold completeStep
  split
  · simp
  · split
    · cases k <;> simp [bodyStep, startStep]
    · split <;> simp
    · exact argumentStep_ne_accepted

/-- Only the end of the file makes a script. -/
theorem eq_endOfFile_of_accepted {q : State} {k : TokenKind} (h : step q k = some .accepted) :
    k = .endOfFile := by
  cases q with
  | condition guards frames mode =>
    exfalso
    cases mode with
    | operand => cases k <;> cases h
    | opened => exact argumentStep_ne_accepted h
    | complete => exact completeStep_ne_accepted h
    | word =>
      by_cases hparen : k = .leftParen
      · subst hparen
        cases h
      · rw [step_word hparen] at h
        exact completeStep_ne_accepted h
    | argumentWord =>
      by_cases hparen : k = .leftParen
      · subst hparen
        cases h
      by_cases hcolon : k = .colon
      · subst hcolon
        cases h
      · rw [step_argumentWord hparen hcolon] at h
        exact completeStep_ne_accepted h
  | between guards => cases guards <;> cases k <;> first | rfl | cases h
  | _ => cases k <;> first | rfl | cases h

theorem run_ne_accepted {q : State} {ks : List TokenKind} (hq : q ≠ .accepted)
    (hks : TokenKind.endOfFile ∉ ks) : run q ks ≠ some .accepted := by
  induction ks generalizing q with
  | nil =>
    intro h
    exact hq (Option.some.inj h)
  | cons k ks ih =>
    intro h
    obtain ⟨hk, hks'⟩ := not_or.1 (List.mem_cons.not.1 hks)
    rw [run] at h
    obtain ⟨r, hr, hrun⟩ := Option.bind_eq_some_iff.1 h
    refine ih ?_ hks' hrun
    rintro rfl
    exact hk (eq_endOfFile_of_accepted hr).symm

end Recognizer

/-! ## Syntax errors -/

/-- A script of these kinds is accepted. -/
theorem Program.exists_parse_of_run {ks : List TokenKind} (hks : TokenKind.endOfFile ∉ ks)
    (h : Recognizer.run (.between 0) (ks ++ [.endOfFile]) = some .accepted) :
    ∃ script p, Program.parse script = .ok p ∧
      (Stream.ofString script).kinds = List.map some (ks ++ [.endOfFile]) := by
  obtain ⟨cs, ts, hts, hkinds⟩ := Scanner.exists_scanned ks hks Scanner.Place.start
  have hscript : (Stream.ofString (String.ofList cs)).toList = ts.map Item.token := by
    rw [Stream.ofString, String.toList_ofList]
    exact hts
  have hstream : (Stream.ofString (String.ofList cs)).kinds =
      List.map some (ks ++ [.endOfFile]) := by
    rw [Stream.kinds, hscript, ← hkinds, List.map_map, List.map_map]
    rfl
  cases hp : Program.parse (String.ofList cs) with
  | ok p => exact ⟨_, p, hp, hstream⟩
  | error e =>
    obtain ⟨x, hx, -⟩ := Program.stuckAt?_of_parse_error hp
    rw [Stream.stuckAt?, hscript, Recognizer.stuckAt?_eq_none (hkinds ▸ h)] at hx
    cases hx

/-- Some script that is accepted has items of these kinds at its start. -/
def Program.Viable (ks : List (Option TokenKind)) : Prop :=
  ∃ script p, Program.parse script = .ok p ∧ ks <+: (Stream.ofString script).kinds

/-- What the recognizer has read of a script is viable. -/
theorem Program.viable_of_run {ks : List TokenKind} {q : Recognizer.State}
    (hks : TokenKind.endOfFile ∉ ks) (h : Recognizer.run (.between 0) ks = some q) :
    Viable (ks.map some) := by
  have hq : q ≠ .accepted := by
    rintro rfl
    exact Recognizer.run_ne_accepted (by simp) hks h
  have hcompleted : Recognizer.run (.between 0)
      (ks ++ Recognizer.completion q ++ [.endOfFile]) = some .accepted := by
    rw [List.append_assoc, Recognizer.run_append_of_run h, Recognizer.run_completion hq]
  obtain ⟨script, p, hp, hkinds⟩ := Program.exists_parse_of_run
    (List.not_mem_append hks (Recognizer.endOfFile_notMem_completion q)) hcompleted
  refine ⟨script, p, hp, ?_⟩
  rw [hkinds, List.append_assoc, List.map_append]
  exact List.prefix_append _ _

/-- No script goes on with an item at which the recognizer is stuck. -/
theorem Program.not_viable_of_stuck {ks : List TokenKind} {q : Recognizer.State} {x : Item}
    (h : Recognizer.run (.between 0) ks = some q) (hx : Recognizer.stepItem q x = none) :
    ¬Viable (ks.map some ++ [x.kind?]) := by
  rintro ⟨script, p, hp, more, hmore⟩
  obtain ⟨ts, hts, hscript⟩ := Program.script_of_parse hp
  -- the kinds of the script are those read so far, that of the item, and others
  rw [Stream.kinds, hts, List.map_map] at hmore
  obtain ⟨start, rest, rfl, hstart, -⟩ := List.map_eq_append_iff.1 hmore.symm
  obtain ⟨same, last, rfl, hsame, hlast⟩ := List.map_eq_append_iff.1 hstart
  obtain ⟨u, rfl, hu⟩ := List.map_eq_singleton_iff.1 hlast
  have hkinds : same.map Token.kind = ks := by
    refine List.map_injective_iff.2 (fun _ _ => Option.some.inj) ?_
    rw [List.map_map]
    exact hsame
  have hstep : Recognizer.step q u.kind = none := by
    rw [Recognizer.stepItem, ← hu] at hx
    exact hx
  -- but the recognizer reads every script to its end
  have hrun := Recognizer.run_of_script hscript 0
  rw [List.map_append, List.map_append, hkinds, List.append_assoc,
    Recognizer.run_append_of_run h, List.map_singleton, List.singleton_append,
    Recognizer.run, hstep] at hrun
  cases hrun

/-- In a text whose size is a word the place of an item is that of its span. -/
theorem Item.StandsIn.exists_place {x : Item} {source : String} (h : x.StandsIn source.toList)
    (small : source.utf8ByteSize < 4294967296) :
    ∃ front back, source.toList = front ++ back ∧ Text.byteCount front = x.span.first ∧
      x.line = 1 + front.count '\n' := by
  obtain ⟨front, back, htext, hfirst, hline⟩ := h
  have hsize := Text.byteCount_toList source
  rw [htext, Text.byteCount_append] at hsize
  refine ⟨front, back, htext, ?_, hline⟩
  rw [hfirst, Nat.mod_eq_of_lt (by omega)]

/-- **Syntax errors stand at the first possible place.** The kinds of the items before the one at
    which the error stands are viable, and with this item they are no longer. The error passes a
    lexical error on exactly if it is this item, and its line is that of its span. -/
theorem Program.parse_error_viable {source : String} {e : ParseError}
    (small : source.utf8ByteSize < 4294967296) (h : Program.parse source = .error e) :
    ∃ (before : List Token) (x : Item) (after : List Item),
      (Stream.ofString source).toList = before.map Item.token ++ x :: after ∧
      Program.Viable (before.map fun t => some t.kind) ∧
      ¬Program.Viable ((before.map fun t => some t.kind) ++ [x.kind?]) ∧
      e.span = x.span ∧ (∀ l, e.kind = .lexical l ↔ x = .error l) ∧
      ∃ front back, source.toList = front ++ back ∧ Text.byteCount front = e.span.first ∧
        e.line = 1 + front.count '\n' := by
  obtain ⟨x, hstuck, hat⟩ := Program.stuckAt?_of_parse_error h
  obtain ⟨before, q, after, hitems, hrun, hnone⟩ := Recognizer.exists_of_stuckAt? hstuck
  have hkinds : (before.map fun t => some t.kind) = (before.map Token.kind).map some :=
    List.map_map.symm
  -- no token before the item is the end of the file
  have hfile : TokenKind.endOfFile ∉ before.map Token.kind := by
    intro hmem
    obtain ⟨t, ht, hk⟩ := List.mem_map.1 hmem
    have hprefix : before.map Item.token <+: (Stream.ofString source).items := by
      refine ⟨(x :: after).dropLast, ?_⟩
      rw [← List.dropLast_append_of_ne_nil (by simp), ← hitems, Stream.toList,
        List.dropLast_concat]
    have hitem : Item.token t ∈ (Stream.ofString source).items :=
      hprefix.subset (List.mem_map_of_mem ht)
    exact Stream.kind_ne_endOfFile hitem hk
  have hmem : x ∈ (Stream.ofString source).toList := by
    rw [hitems]
    simp
  refine ⟨before, x, after, hitems, ?_, ?_, hat.span, hat.lexical, ?_⟩
  · rw [hkinds]
    exact Program.viable_of_run hfile hrun
  · rw [hkinds]
    exact Program.not_viable_of_stuck hrun hnone
  · rw [hat.span, hat.line]
    exact (Stream.standsIn_of_mem hmem).exists_place small

/-- A closing parenthesis where an operand has to come, after a newline. -/
theorem Program.parse_error_viable_operand :
    ∃ e, "命令 a\n※ f(k：1) または ) 「x」".utf8ByteSize < 4294967296 ∧
      Program.parse "命令 a\n※ f(k：1) または ) 「x」" = .error e ∧
      ∃ (before : List Token) (x : Item) (after : List Item),
        (Stream.ofString "命令 a\n※ f(k：1) または ) 「x」").toList =
          before.map Item.token ++ x :: after ∧
        Program.Viable (before.map fun t => some t.kind) ∧
        ¬Program.Viable ((before.map fun t => some t.kind) ++ [x.kind?]) ∧
        e.span = x.span ∧ (∀ l, e.kind = .lexical l ↔ x = .error l) ∧
        ∃ front back, "命令 a\n※ f(k：1) または ) 「x」".toList = front ++ back ∧
          Text.byteCount front = e.span.first ∧ e.line = 1 + front.count '\n' := by
  have hsmall : "命令 a\n※ f(k：1) または ) 「x」".utf8ByteSize < 4294967296 := by decide +kernel
  have hfails : (Program.parse "命令 a\n※ f(k：1) または ) 「x」").isOk = false := by decide +kernel
  cases h : Program.parse "命令 a\n※ f(k：1) または ) 「x」" with
  | ok p =>
    rw [h] at hfails
    cases hfails
  | error e => exact ⟨e, hsmall, rfl, Program.parse_error_viable hsmall h⟩

end StageScript
