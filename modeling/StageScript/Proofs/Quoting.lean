import StageScript.Proofs.Accounting
import StageScript.Proofs.RoundTrip
import StageScript.Proofs.Tiling

set_option autoImplicit false

/-! # Quoted texts

The scanner finds the end of a string by counting the marks that are open. `closing?_eq_some` says
which texts it passes over before it: those that settle what is open and never more than that. So a
text can be quoted if its marks are balanced on one line; it then comes through to the character, to
the machine and into a question as it is, and nothing else is ever said. Main statement:
`Text.quoting`. -/

namespace StageScript

/-! ## Balanced marks -/

namespace Text

/-- The text stands on one line, opens every mark before it closes it, and leaves none open. -/
structure Quotable (t : List Char) : Prop where
  line : '\n' ∉ t
  prefixes : ∀ p, p <+: t → p.count '」' ≤ p.count '「'
  total : t.count '」' = t.count '「'

/-- The text stands on one line and closes, besides the marks that it opens itself, `depth` that
    are open before it. -/
structure Settles (depth : Nat) (t : List Char) : Prop where
  line : '\n' ∉ t
  prefixes : ∀ p, p <+: t → p.count '」' ≤ depth + p.count '「'
  total : t.count '」' = depth + t.count '「'

theorem settles_zero {t : List Char} : Settles 0 t ↔ Quotable t := by
  constructor
  · rintro ⟨hline, hprefixes, htotal⟩
    simp only [Nat.zero_add] at hprefixes htotal
    exact ⟨hline, hprefixes, htotal⟩
  · rintro ⟨hline, hprefixes, htotal⟩
    exact ⟨hline, by simpa using hprefixes, by simpa using htotal⟩

theorem settles_nil {depth : Nat} : Settles depth [] ↔ depth = 0 := by
  constructor
  · rintro ⟨-, -, htotal⟩
    exact htotal.symm
  · rintro rfl
    exact ⟨by simp, by simp, rfl⟩

theorem settles_cons {depth : Nat} {c : Char} {t : List Char} :
    Settles depth (c :: t) ↔ c ≠ '\n' ∧ '\n' ∉ t ∧
      (∀ p, p <+: t → (c :: p).count '」' ≤ depth + (c :: p).count '「') ∧
      (c :: t).count '」' = depth + (c :: t).count '「' := by
  constructor
  · rintro ⟨hline, hprefixes, htotal⟩
    obtain ⟨hc, ht⟩ := not_or.1 (List.mem_cons.not.1 hline)
    exact ⟨Ne.symm hc, ht, fun p hp => hprefixes _ (List.prefix_cons_inj c |>.2 hp), htotal⟩
  · rintro ⟨hc, ht, hprefixes, htotal⟩
    refine ⟨by simp [Ne.symm hc, ht], fun p hp => ?_, htotal⟩
    rcases List.prefix_cons_iff.1 hp with rfl | ⟨q, rfl, hq⟩
    · simp
    · exact hprefixes q hq

variable {depth : Nat} {t : List Char}

/-- An opening mark is one more to close. -/
theorem settles_open : Settles depth ('「' :: t) ↔ Settles (depth + 1) t := by
  have hcount : ∀ p : List Char, depth + ('「' :: p).count '「' = depth + 1 + p.count '「' := by
    intro p
    rw [List.count_cons_self]
    omega
  have hother : ∀ p : List Char, ('「' :: p).count '」' = p.count '」' :=
    fun p => List.count_cons_of_ne (by decide)
  simp only [settles_cons, hcount, hother]
  exact ⟨fun ⟨_, ht, hprefixes, htotal⟩ => ⟨ht, hprefixes, htotal⟩,
    fun ⟨ht, hprefixes, htotal⟩ => ⟨by decide, ht, hprefixes, htotal⟩⟩

/-- A closing mark needs one that is open. -/
theorem settles_close : Settles depth ('」' :: t) ↔ ∃ d, depth = d + 1 ∧ Settles d t := by
  have hcount : ∀ p : List Char, ('」' :: p).count '」' = p.count '」' + 1 :=
    fun p => List.count_cons_self
  have hother : ∀ p : List Char, ('」' :: p).count '「' = p.count '「' :=
    fun p => List.count_cons_of_ne (by decide)
  simp only [settles_cons, hcount, hother]
  constructor
  · rintro ⟨-, ht, hprefixes, htotal⟩
    have hfirst := hprefixes [] List.nil_prefix
    rw [List.count_nil, List.count_nil] at hfirst
    obtain ⟨d, rfl⟩ := Nat.exists_eq_add_of_le' (by omega : 1 ≤ depth)
    refine ⟨d, rfl, ht, fun p hp => ?_, by omega⟩
    have := hprefixes p hp
    omega
  · rintro ⟨d, rfl, ht, hprefixes, htotal⟩
    refine ⟨by decide, ht, fun p hp => ?_, by omega⟩
    have := hprefixes p hp
    omega

/-- Any other character changes nothing, unless it ends the line. -/
theorem settles_other {c : Char} (hopen : c ≠ '「') (hclose : c ≠ '」') :
    Settles depth (c :: t) ↔ c ≠ '\n' ∧ Settles depth t := by
  have hcount : ∀ p : List Char, (c :: p).count '」' = p.count '」' :=
    fun p => List.count_cons_of_ne hclose
  have hother : ∀ p : List Char, (c :: p).count '「' = p.count '「' :=
    fun p => List.count_cons_of_ne hopen
  simp only [settles_cons, hcount, hother]
  exact ⟨fun ⟨hc, ht, hprefixes, htotal⟩ => ⟨hc, ht, hprefixes, htotal⟩,
    fun ⟨hc, ht, hprefixes, htotal⟩ => ⟨hc, ht, hprefixes, htotal⟩⟩

end Text

/-! ## The end of a string -/

namespace Scanner

open Text (Quotable Settles settles_cons settles_zero settles_nil settles_open settles_close
  settles_other)

/-- The mark that closes a string comes behind a text that settles the marks open inside of it. -/
theorem closing?_eq_some {depth n : Nat} {cs : List Char} :
    closing? (depth + 1) cs = some n ↔
      ∃ t rest, cs = t ++ '」' :: rest ∧ t.length + 1 = n ∧ Settles depth t := by
  induction cs generalizing depth n with
  | nil => simp [closing?]
  | cons c cs ih =>
    -- the closing mark is the first character, or stands behind it
    have hsplit : (∃ t rest, c :: cs = t ++ '」' :: rest ∧ t.length + 1 = n ∧ Settles depth t) ↔
        (c = '」' ∧ depth = 0 ∧ n = 1) ∨ ∃ t rest, cs = t ++ '」' :: rest ∧
          t.length + 1 + 1 = n ∧ Settles depth (c :: t) := by
      constructor
      · rintro ⟨t, rest, hcs, hn, ht⟩
        rcases List.cons_eq_append_iff.1 hcs with ⟨rfl, hrest⟩ | ⟨u, rfl, rfl⟩
        · exact .inl ⟨(List.cons.inj hrest).1.symm, settles_nil.1 ht, hn.symm⟩
        · exact .inr ⟨u, rest, rfl, hn, ht⟩
      · rintro (⟨rfl, rfl, rfl⟩ | ⟨t, rest, rfl, hn, ht⟩)
        · exact ⟨[], cs, rfl, rfl, settles_nil.2 rfl⟩
        · exact ⟨c :: t, rest, rfl, hn, ht⟩
    have hbehind : ∀ d, (closing? (d + 1) cs).map (· + 1) = some n ↔
        ∃ t rest, cs = t ++ '」' :: rest ∧ t.length + 1 + 1 = n ∧ Settles d t := by
      intro d
      rw [Option.map_eq_some_iff]
      constructor
      · rintro ⟨m, hm, rfl⟩
        obtain ⟨t, rest, hcs, hm, ht⟩ := ih.1 hm
        exact ⟨t, rest, hcs, congrArg (· + 1) hm, ht⟩
      · rintro ⟨t, rest, hcs, rfl, ht⟩
        exact ⟨_, ih.2 ⟨t, rest, hcs, rfl, ht⟩, rfl⟩
    rw [hsplit, closing?]
    by_cases hline : c = '\n'
    · subst hline
      simp [settles_cons]
    by_cases hopen : c = '「'
    · subst hopen
      simpa [settles_open] using hbehind (depth + 1)
    by_cases hclose : c = '」'
    · subst hclose
      cases depth with
      | zero => simp [settles_close, eq_comm]
      | succ d => simpa [settles_close] using hbehind d
    · simpa [hline, hopen, hclose, settles_other] using hbehind depth

theorem shape_quote (cs : List Char) : shape '「' cs =
    match closing? 1 cs with
    | some n => (.token .string, n)
    | none => (.error .unclosedString, restOfLine cs) := rfl

/-- A string is a text that can be quoted between its marks, whatever stands behind it. -/
theorem string_of_shape {c : Char} {cs after : List Char}
    (h : shape c (cs ++ after) = (.token .string, cs.length)) :
    ∃ t, c :: cs = '「' :: (t ++ ['」']) ∧ Quotable t := by
  generalize hn : cs.length = n at h
  cases starts_of_shape h with
  | mark hc => simp [marks] at hc
  | sign hc => cases hc
  | signEqual hc => cases hc
  | word _ _ hkind => exact absurd (hkind ▸ ofWord_mem _) (by decide)
  | string hc hclose =>
    subst hc
    obtain ⟨t, rest, heq, hlength, ht⟩ := closing?_eq_some.1 hclose
    have hcs : cs ++ after = (t ++ ['」']) ++ rest := by simpa using heq
    refine ⟨t, ?_, settles_zero.1 ht⟩
    rw [List.append_inj_left hcs (by simp [hn, hlength])]

/-- The strings are the texts that can be quoted, each between its marks. -/
theorem lexeme_string {w : List Char} :
    Lexeme .string w ↔ ∃ t, w = '「' :: (t ++ ['」']) ∧ Quotable t := by
  constructor
  · intro h
    cases w with
    | nil => exact h.elim
    | cons c cs => exact string_of_shape (h.2 [] separated_nil)
  · rintro ⟨t, rfl, ht⟩
    refine lexeme_of_shape_eq ?_
    rw [shape_quote, closing?_eq_some.2 ⟨t, [], rfl, rfl, settles_zero.2 ht⟩, List.length_append]
    rfl

end Scanner

/-! ## Texts between marks -/

open Scanner

namespace Text

/-- The text between marks. -/
def marked (t : String) : String := "「" ++ t ++ "」"

theorem toList_marked (t : String) : (marked t).toList = '「' :: (t.toList ++ ['」']) := by
  simp [marked, String.toList_append]

/-- The marks come off again. -/
theorem unmark?_marked (t : String) : unmark? (marked t) = some t := by
  rw [unmark?, toList_marked, unmarkChars?_between, Option.map_some, String.ofList_toList]

theorem lexeme_marked {t : String} : Lexeme .string (marked t).toList ↔ Quotable t.toList := by
  rw [lexeme_string, toList_marked]
  constructor
  · rintro ⟨u, hu, ht⟩
    obtain ⟨rfl, -⟩ := List.append_inj' (List.cons.inj hu).2 rfl
    exact ht
  · exact fun ht => ⟨_, rfl, ht⟩

/-- The whole text is scanned as one string. -/
def IsString (source : String) : Prop :=
  ∃ token, (Stream.ofString source).items = [.token token] ∧ token.kind = .string ∧
    token.span.first = 0 ∧ token.span.stop = source.utf8ByteSize

/-- A text that is scanned as one string can be quoted. -/
theorem quotable_of_isString {t : String} (h : IsString (marked t)) : Quotable t.toList := by
  obtain ⟨token, hitems, hk, hfirst, hstop⟩ := h
  rw [← byteCount_toList] at hstop
  have small : byteCount (marked t).toList < 4294967296 := hstop ▸ UInt32.toNat_lt _
  have hmem : Item.token token ∈ (Stream.ofString (marked t)).items := by simp [hitems]
  obtain ⟨before, lexeme, after, htext, -, hbefore, hlexeme, htoken⟩ :=
    (tiles_itemsAt Place.start (marked t).toList).exists_bounds
      (by simpa [Place.start] using small) hmem
  -- nothing stands before the lexeme or behind it
  have hcount := congrArg byteCount htext
  simp only [byteCount_append, Item.span, Place.start] at hcount hbefore hlexeme
  obtain rfl : before = [] := by
    by_contra hne
    have := byteCount_pos hne
    omega
  obtain rfl : after = [] := by
    by_contra hne
    have := byteCount_pos hne
    omega
  have hlex := lexeme_of_mem hmem
  rw [hk, htoken token rfl, String.toList_ofList,
    show lexeme = (marked t).toList by simpa using htext.symm] at hlex
  exact lexeme_marked.1 hlex

theorem isString_marked {t : String} (small : (marked t).utf8ByteSize < 4294967296)
    (ht : Quotable t.toList) : IsString (marked t) := by
  rw [← byteCount_toList] at small
  have hstream := streamAt_lexeme (p := Place.start) (lexeme_marked.2 ht) separated_nil
  rw [List.append_nil] at hstream
  refine ⟨tokenAt Place.start .string (marked t).toList, congrArg Stream.items hstream, rfl, rfl,
    ?_⟩
  rw [← byteCount_toList]
  change (Span.between 0 (0 + _)).stop = _
  rw [Nat.zero_add, Span.stop_between (Nat.zero_le _) small]

end Text

/-! ## From a text to a stage -/

theorem Program.parse_of_writable {st : Statement} (hst : st.Writable) :
    ∃ st', Program.parse (String.ofList st.written) = .ok ⟨[st']⟩ ∧
      st'.withLine 0 = st.withLine 0 := by
  obtain ⟨sts, rest, hread, hsts⟩ :=
    statements_written (List.forall_mem_singleton.2 hst) Place.start
  obtain ⟨st', rfl, hst'⟩ := List.map_eq_singleton_iff.1 hsts
  refine ⟨st', Program.parse_eq_ok.2 ⟨rest, ?_⟩, hst'⟩
  rw [Stream.ofString, String.toList_ofList]
  exact hread

/-- A program of one statement comes to its result and records what the statement does. -/
theorem Program.onRecording_singleton (st : Statement) (r : Recording) :
    (perform ⟨[st]⟩).onRecording r =
      (Tally.zero.count (st.perform.value r.answer), r.append (st.recorded r.answer)) := by
  rw [Program.onRecording_perform]
  simp

/-- A path that is given is opened. -/
theorem Statement.performKnown_openApplication (answer : Query → Float) {call : CommandCall}
    {path : String} (hpath : call.get? Command.pathKey = some path) (line : Nat) :
    (performKnown Command.openApplication call line).value answer = .ok .executed ∧
      (performKnown Command.openApplication call line).events answer = [.act (.openPath path)] := by
  have hrequire : call.require Command.pathKey = .ok path := by rw [CommandCall.require, hpath]
  have hcheck : Command.openApplication.check call = .ok () := by
    simp only [Command.check, Command.openApplication, List.forM_eq_forM, List.forM_cons, hrequire]
    rfl
  have haction : Command.openApplication.action call = .ok (.openPath path) := by
    rw [Command.openApplication]
    simp only [hrequire]
    rfl
  rw [performKnown, hcheck]
  simp [haction, events_noteUnaccepted]

/-- A text said between marks, a path given between marks, and a directory asked for between marks:
    what comes of them is the text itself. -/
structure Text.ComesThrough (t : String) : Prop where
  dialogue : ∀ r : Recording, (Performance.ofSource (marked t)).map (·.onRecording r) =
    .ok (⟨1, 0, 0, 0⟩, r.append [.act (.say t)])
  path : ∀ r : Recording,
    (Performance.ofSource ("アプリケーションを開く パス：" ++ marked t)).map (·.onRecording r) =
      .ok (⟨1, 0, 0, 0⟩, r.append [.act (.openPath t)])
  directory : ∃ e, Expression.parse ("ファイル（" ++ marked t ++ "）") = .ok e ∧
    ∀ r : Recording, e.evaluate.onRecording r =
      (.number (.ofNat (r.directorySize t)), r.append [.query (.directory t)])

namespace Text

variable {t : String} (ht : Quotable t.toList)

include ht

theorem dialogue_comesThrough (r : Recording) :
    (Performance.ofSource (marked t)).map (·.onRecording r) =
      .ok (⟨1, 0, 0, 0⟩, r.append [.act (.say t)]) := by
  have hst : (Statement.dialogue (marked t) 0).Writable := lexeme_marked.2 ht
  obtain ⟨st, hparse, hst⟩ := Program.parse_of_writable hst
  cases st with
  | command | conditional => cases hst
  | dialogue text line =>
    obtain rfl : text = marked t := (Statement.dialogue.inj hst).1
    rw [Statement.written, String.ofList_toList] at hparse
    rw [Performance.ofSource, hparse]
    simp only [Except.map, Program.onRecording_singleton, Statement.recorded, Statement.perform,
      Statement.performDialogue, unmark?_marked]
    rfl

theorem path_comesThrough (r : Recording) :
    (Performance.ofSource ("アプリケーションを開く パス：" ++ marked t)).map (·.onRecording r) =
      .ok (⟨1, 0, 0, 0⟩, r.append [.act (.openPath t)]) := by
  let a : Arguments := ⟨[("パス", .string (marked t))]⟩
  have hname : Lexeme .identifier "アプリケーションを開く".toList :=
    lexeme_of_shape_eq (by decide +kernel)
  have hkey : Lexeme .identifier "パス".toList := lexeme_of_shape_eq (by decide +kernel)
  have ha : a.Writable := by
    refine ⟨by simp [a], fun entry hentry => ?_⟩
    obtain rfl := List.mem_singleton.1 hentry
    exact ⟨hkey, lexeme_marked.2 ht⟩
  have hcommand : (Statement.command "アプリケーションを開く" a 0).Writable := ⟨hname, ha⟩
  obtain ⟨st, hparse, hst⟩ := Program.parse_of_writable hcommand
  cases st with
  | dialogue | conditional => cases hst
  | command name arguments line =>
    obtain ⟨rfl, rfl, -⟩ := Statement.command.inj hst
    have hwritten : String.ofList (Statement.command "アプリケーションを開く" a 0).written =
        "アプリケーションを開く パス：" ++ marked t := by
      have htext : "アプリケーションを開く パス：".toList =
          "アプリケーションを開く".toList ++ ' ' :: ("パス".toList ++ ['：']) := by decide +kernel
      apply String.toList_inj.1
      rw [String.toList_append, htext, String.toList_ofList]
      simp only [List.append_assoc, List.cons_append, List.nil_append]
      rfl
    have hlookup : Command.lookup? "アプリケーションを開く" = some Command.openApplication := rfl
    have hpath : (CommandCall.ofArguments "アプリケーションを開く" a).get? Command.pathKey = some t := by
      have htext : (Literal.string (marked t)).argumentText = t := by
        rw [Literal.string, Literal.argumentText, unmark?_marked, Option.getD_some]
      simp [CommandCall.ofArguments, CommandCall.get?, a, Command.pathKey, htext]
    obtain ⟨hvalue, hevents⟩ := Statement.performKnown_openApplication r.answer hpath line
    rw [hwritten] at hparse
    rw [Performance.ofSource, hparse]
    simp only [Except.map, Program.onRecording_singleton, Statement.recorded, Statement.perform,
      Statement.performCommand, hlookup, hvalue, hevents]
    rfl

/-- The name of the function, the parenthesis and the string are scanned one after the other. -/
theorem parse_directory : Expression.parse ("ファイル（" ++ marked t ++ "）") =
    .ok (.ofTree (.call "ファイル" (.cons none (.atom (.string (marked t)) 1) .nil) 1)) := by
  have hname : Lexeme .identifier "ファイル".toList := lexeme_of_shape_eq (by decide +kernel)
  let parenPlace := Place.start.afterAll "ファイル".toList
  let textPlace := parenPlace.after '（'
  let closePlace := textPlace.afterAll (marked t).toList
  let us : List Token := [tokenAt Place.start .identifier "ファイル".toList,
    tokenAt parenPlace .leftParen ['（'], tokenAt textPlace .string (marked t).toList,
    tokenAt closePlace .rightParen ['）']]
  have hstream : Stream.ofString ("ファイル（" ++ marked t ++ "）") =
      (streamAt (closePlace.after '）') []).prepend us := by
    have htext : "ファイル（".toList = "ファイル".toList ++ ['（'] := by decide +kernel
    have hclose : "）".toList = ['）'] := by decide +kernel
    have hparen : Separated ('（' :: ((marked t).toList ++ ['）'])) :=
      separated_cons (by decide +kernel) _
    have hend : Separated ['）'] := separated_cons (by decide +kernel) _
    rw [Stream.ofString, String.toList_append, String.toList_append, htext, hclose,
      List.append_assoc, List.append_assoc, List.singleton_append, Stream.ofText,
      streamAt_lexeme hname hparen, streamAt_mark .leftParen rfl,
      streamAt_lexeme (lexeme_marked.2 ht) hend, streamAt_mark .rightParen rfl]
    simp only [Stream.prepend_prepend]
    rfl
  have hline : textPlace.line = 1 := by decide +kernel
  have hspelled : Spelled us
      (Tree.call "ファイル" (.cons none (.atom (.string (marked t)) 1) .nil) 1).yield :=
    .cons ⟨rfl, String.ofList_toList, rfl⟩ <| .cons rfl <|
      .cons ⟨rfl, String.ofList_toList, hline⟩ <| .cons rfl .nil
  have htree : Parser.treeAt 0 ((streamAt (closePlace.after '）') []).prepend us) =
      .ok (.call "ファイル" (.cons none (.atom (.string (marked t)) 1) .nil) 1)
        (streamAt (closePlace.after '）') []) := by
    refine Parser.treeAt_of_spelled hspelled ⟨trivial, trivial⟩ rfl ?_ rfl
    rw [Tree.apart_call, TreeArguments.apart_cons, Tree.apart_atom]
    exact ⟨fun h => by simp [Literal.string] at h, TreeArguments.apart_nil⟩
  rw [Expression.parse, hstream, Parser.expression_eq, Parser.bind_of_ok htree]
  rfl

theorem directory_comesThrough : ∃ e, Expression.parse ("ファイル（" ++ marked t ++ "）") = .ok e ∧
    ∀ r : Recording, e.evaluate.onRecording r =
      (.number (.ofNat (r.directorySize t)), r.append [.query (.directory t)]) := by
  refine ⟨_, parse_directory ht, fun r => ?_⟩
  have hlookup : BuiltIn.lookup? "ファイル" = some BuiltIn.directorySize := rfl
  have hvalue : (Value.ofLiteral (.string (marked t))).display = t := by
    rw [Literal.string, Value.ofLiteral]
    simp only [unmark?_marked, Option.getD_some, Value.display]
  rw [Expression.evaluate_ofTree, Tree.evaluate_argument hlookup rfl, Tree.evaluate,
    Performance.onRecording_eq]
  simp [hvalue, BuiltIn.directorySize, Recording.answer]

/-- A text that can be quoted comes through. -/
theorem comesThrough : ComesThrough t where
  dialogue := dialogue_comesThrough ht
  path := path_comesThrough ht
  directory := directory_comesThrough ht

end Text

/-! ## What is said -/

/-- The lines that some events say can all be quoted. -/
def SaysQuotable (es : List Event) : Prop :=
  ∀ text, Event.act (.say text) ∈ es → Text.Quotable text.toList

theorem SaysQuotable.append {es fs : List Event} (he : SaysQuotable es) (hf : SaysQuotable fs) :
    SaysQuotable (es ++ fs) := by
  intro text h
  rcases List.mem_append.1 h with h | h
  · exact he text h
  · exact hf text h

theorem saysQuotable_nil : SaysQuotable [] := by simp [SaysQuotable]

/-- Evaluations say nothing. -/
theorem saysQuotable_evaluations {es : List Event} (h : ∀ e ∈ es, e.isEvaluation = true) :
    SaysQuotable es := by
  intro text hmem
  exact absurd (h _ hmem) (by simp [Event.isEvaluation])

/-- No command of the table says anything. -/
theorem Command.action_ne_say {name : String} {known : Command}
    (hname : Command.lookup? name = some known) {call : CommandCall} (text : String) :
    known.action call ≠ .ok (.say text) := by
  have hmem := List.mem_of_find?_eq_some hname
  simp only [table, List.mem_cons, List.not_mem_nil, or_false] at hmem
  rcases hmem with rfl | rfl | rfl
  · simp [blockMouse]
  · simp [releaseMouse]
  · dsimp only [openApplication]
    cases call.require pathKey <;> simp [Except.map]

namespace Statement

variable {answer : Query → Float}

theorem saysQuotable_performCommand (name : String) (arguments : Arguments) (line : Nat) :
    SaysQuotable ((performCommand name arguments line).events answer) := by
  rw [performCommand]
  cases hname : Command.lookup? name with
  | none => simp [SaysQuotable]
  | some known =>
    dsimp only
    rw [performKnown]
    cases known.check (.ofArguments name arguments) with
    | error kind => exact saysQuotable_nil
    | ok _ =>
      cases hact : known.action (.ofArguments name arguments) with
      | error kind => simp [events_noteUnaccepted, SaysQuotable]
      | ok act =>
        intro text h
        obtain rfl : Act.say text = act := by simpa [events_noteUnaccepted] using h
        exact absurd hact (Command.action_ne_say hname text)

/-- A statement that has been read says what stands between the marks of a string. -/
theorem Writable.saysQuotable {st : Statement} (hst : st.Writable) :
    SaysQuotable (st.perform.events answer) := by
  induction st with
  | dialogue text line =>
    obtain ⟨t, htext, ht⟩ := lexeme_string.1 hst
    have hunmark : Text.unmark? text = some (String.ofList t) := by
      rw [Text.unmark?, htext, Text.unmarkChars?_between, Option.map_some]
    rw [perform, performDialogue, hunmark]
    intro spoken h
    obtain rfl : spoken = String.ofList t := by simpa using h
    rwa [String.toList_ofList]
  | command name arguments line => exact saysQuotable_performCommand name arguments line
  | conditional condition body jump line ih =>
    obtain ⟨⟨t, rfl, -⟩, hbody, -⟩ := hst
    let g : Guard := ⟨.ofTree t, jump, line⟩
    have hguard : SaysQuotable (g.events answer) := saysQuotable_evaluations fun e =>
      Guard.isEvaluation_of_mem (g := g) (Expression.tree?_ofTree t)
    rw [perform, Performance.events_bind]
    refine hguard.append ?_
    split
    · exact ih hbody
    · rw [events_performSkip g, Guard.skipEvents]
      intro text h
      obtain ⟨label, -, hlabel⟩ := List.mem_map.1 h
      cases hlabel

end Statement

theorem Program.saysQuotable_of_parse {source : String} {p : Program}
    (h : Program.parse source = .ok p) (answer : Query → Float) :
    SaysQuotable (p.statements.flatMap (Statement.recorded answer)) := by
  intro text htext
  obtain ⟨st, hst, hmem⟩ := List.mem_flatMap.1 htext
  rcases List.mem_append.1 hmem with hmem | hmem
  · exact (writable_of_parse h st hst).saysQuotable text hmem
  · cases hresult : st.perform.value answer <;> simp [hresult, resultEvents] at hmem

/-- **Quoting.** A text comes through from between its marks if they are balanced on one line.
    Between marks no other text is scanned as one string, and no other text is ever said by a script
    that can be read. -/
theorem Text.quoting (t : String) :
    (Quotable t.toList → ComesThrough t ∧
        ((marked t).utf8ByteSize < 4294967296 → IsString (marked t))) ∧
      (¬Quotable t.toList → ¬IsString (marked t)) ∧
      ∀ source p, Program.parse source = .ok p → ∀ r : Recording, ∃ tally es,
        p.perform.onRecording r = (tally, r.append es) ∧ SaysQuotable es :=
  ⟨fun ht => ⟨comesThrough ht, fun small => isString_marked small ht⟩,
    mt quotable_of_isString,
    fun _ p hp r => ⟨_, _, p.onRecording_perform r, Program.saysQuotable_of_parse hp r.answer⟩⟩

/-- Marks inside of a text, one pair in the other. -/
theorem Text.quoting_nested : (marked "a「b「」」c").utf8ByteSize < 4294967296 ∧
    Quotable "a「b「」」c".toList ∧ ComesThrough "a「b「」」c" ∧ IsString (marked "a「b「」」c") := by
  have small : (marked "a「b「」」c").utf8ByteSize < 4294967296 := by decide +kernel
  have hquotable : Quotable "a「b「」」c".toList := by
    refine settles_zero.1 ?_
    have htext : "a「b「」」c".toList = ['a', '「', 'b', '「', '」', '」', 'c'] := by decide +kernel
    rw [htext]
    simp [settles_open, settles_close, settles_other, settles_nil]
  obtain ⟨hcomes, hstring⟩ := (quoting "a「b「」」c").1 hquotable
  exact ⟨small, hquotable, hcomes, hstring small⟩

end StageScript
