import StageScript.Proofs.TreeForm

set_option autoImplicit false

/-! # Programs told apart by their S-expressions

The S-expression of a statement is a form, too, and those of a program stand on lines of their own.
So a program can be read off its S-expression again, up to its lines and the spelling of its
numbers. Main statement: `Program.eq_of_sexpr`. -/

namespace StageScript

open Scanner

/-! ## Expressions -/

/-- The keys of the arguments of a call. -/
def Node.keys : Node → List String
  | call _ arguments _ => arguments.filterMap (·.key)
  | _ => []

/-- The keys of the arguments of all calls. -/
def Expression.callKeys (e : Expression) : List String := e.nodes.toList.flatMap Node.keys

namespace Expression

variable {e : Expression}

theorem literal_mem {i : Nat} {l : Literal} {line : Nat} (h : e.nodes[i]? = some (.atom l line)) :
    l ∈ e.literals :=
  List.mem_filterMap.2 ⟨_, Array.mem_toList_iff.2 (Array.mem_of_getElem? h), rfl⟩

theorem key_mem {i : Nat} {name key : String} {arguments : List NodeArgument} {line : Nat}
    (h : e.nodes[i]? = some (.call name arguments line)) {a : NodeArgument} (ha : a ∈ arguments)
    (hkey : a.key = some key) : key ∈ e.callKeys :=
  List.mem_flatMap.2 ⟨_, Array.mem_toList_iff.2 (Array.mem_of_getElem? h),
    List.mem_filterMap.2 ⟨a, ha, hkey⟩⟩

end Expression

/-- A symbol of the arguments belongs to a key or to a value. -/
theorem TreeArguments.mem_yield_of_collect? {find : Nat → Option Tree}
    {arguments : List NodeArgument} {values : TreeArguments}
    (h : collect? find arguments = some values) {x : Symbol} (hx : x ∈ values.yield) :
    ∃ a ∈ arguments, x ∈ Symbol.ofKey a.key ∨ ∃ t, find a.value = some t ∧ x ∈ t.yield := by
  induction arguments generalizing values with
  | nil =>
    obtain rfl := Option.some.inj h
    cases hx
  | cons a rest ih =>
    obtain ⟨t, ht, h⟩ := Option.bind_eq_some_iff.1 h
    obtain ⟨others, hothers, h⟩ := Option.bind_eq_some_iff.1 h
    obtain rfl := Option.some.inj h
    rw [yield] at hx
    rcases List.mem_append.1 hx with hx | hx
    · exact ⟨a, List.mem_cons_self, .inl hx⟩
    rcases List.mem_append.1 hx with hx | hx
    · exact ⟨a, List.mem_cons_self, .inr ⟨t, ht, hx⟩⟩
    · obtain ⟨b, hb, hmem⟩ := ih hothers hx
      exact ⟨b, List.mem_cons_of_mem _ hb, hmem⟩

/-- The literals and keys among the symbols of a tree are those of its nodes. -/
def Symbol.IsOf (e : Expression) : Symbol → Prop
  | literal l _ => l ∈ e.literals
  | key text => text ∈ e.callKeys
  | name .. | sign _ => True

theorem Expression.isOf_of_treeWithin? {e : Expression} {fuel i : Nat} {t : Tree}
    (h : e.treeWithin? fuel i = some t) : ∀ x ∈ t.yield, x.IsOf e := by
  induction fuel generalizing i t with
  | zero => cases h
  | succ fuel ih =>
    obtain ⟨n, hn, hunfolds⟩ := treeWithin?_succ.1 h
    have hjoin : ∀ (o : Operator) {lhs rhs : Nat} {left right : Tree},
        e.treeWithin? fuel lhs = some left → e.treeWithin? fuel rhs = some right →
          ∀ x ∈ (o.join left right).yield, x.IsOf e := by
      intro o lhs rhs left right hl hr x hx
      rw [Tree.yield_join] at hx
      rcases List.mem_append.1 hx with hx | hx
      · exact ih hl x hx
      rcases List.mem_cons.1 hx with rfl | hx
      · trivial
      · exact ih hr x hx
    intro x hx
    cases hunfolds with
    | atom l line =>
      obtain rfl := List.mem_singleton.1 hx
      exact literal_mem hn
    | group hinner =>
      simp only [Tree.yield, List.cons_append, List.mem_cons, List.mem_append, List.not_mem_nil,
        or_false] at hx
      rcases hx with rfl | hx | rfl
      · trivial
      · exact ih hinner x hx
      · trivial
    | comparison c hl hr => exact hjoin (.comparison c) hl hr x hx
    | connective c hl hr => exact hjoin (.connective c) hl hr x hx
    | call name line hvalues =>
      simp only [Tree.yield, List.cons_append, List.mem_cons, List.mem_append, List.not_mem_nil,
        or_false] at hx
      rcases hx with rfl | rfl | hx | rfl
      · trivial
      · trivial
      · obtain ⟨a, ha, hmem | ⟨t, ht, hmem⟩⟩ := TreeArguments.mem_yield_of_collect? hvalues hx
        · cases hkey : a.key with
          | none =>
            rw [hkey] at hmem
            cases hmem
          | some key =>
            simp only [hkey, Symbol.ofKey, List.mem_cons, List.not_mem_nil, or_false] at hmem
            rcases hmem with rfl | rfl
            · exact key_mem hn ha hkey
            · trivial
        · exact ih ht x hmem
      · trivial

/-! ## Statements -/

/-- The keys of the arguments of all calls in the conditions. -/
def Statement.callKeys : Statement → List String
  | dialogue _ _ => []
  | command _ _ _ => []
  | conditional condition body _ _ => condition.callKeys ++ body.callKeys

/-- The statement can be written, no keyed argument looks like a group or a call, and no number is
    infinite. -/
structure Statement.Legible (st : Statement) : Prop where
  writable : st.Writable
  keys : ∀ key ∈ st.callKeys, key ≠ "group" ∧ key ≠ "call"
  finite : ∀ l ∈ st.literals, l.kind = .number → l.sexpr ≠ "inf"

/-- The form that is written of an expression. -/
def Expression.form (e : Expression) : Form :=
  match e.tree? with
  | some t => t.form
  | none => .word ""

/-- Each argument in a list of its own behind its key. -/
def Arguments.forms : List (String × Literal) → Forms
  | [] => .nil
  | (key, l) :: rest => .cons (.list key (.cons (.word l.sexpr) .nil)) (forms rest)

/-- A label in a list of its own, if there is one. -/
def Forms.ofJump : Option String → Forms
  | none => .nil
  | some label => .cons (.list "jump" (.cons (.word label) .nil)) .nil

/-- The form that is written of a statement. -/
def Statement.form : Statement → Form
  | dialogue text _ => .list "say" (.cons (.word text) .nil)
  | command name arguments _ =>
    .list "command" (.cons (.word name) (Arguments.forms arguments.entries))
  | conditional condition body jump _ =>
    .list "if" (.cons condition.form (.cons body.form (.ofJump jump)))

theorem Arguments.written_forms (entries : List (String × Literal)) :
    (Arguments.forms entries).written =
      (String.join (entries.map SExpression.entry)).toList := by
  induction entries with
  | nil => rfl
  | cons entry rest ih =>
    obtain ⟨key, l⟩ := entry
    simp [Arguments.forms, Form.written, Forms.written, SExpression.entry, ih]

theorem Arguments.legible_forms {entries : List (String × Literal)}
    (h : ∀ entry ∈ entries, Lexeme .identifier entry.1.toList ∧ entry.2.Legible) :
    (Arguments.forms entries).Legible := by
  induction entries with
  | nil => trivial
  | cons entry rest ih =>
    obtain ⟨⟨hkey, hvalue⟩, hrest⟩ := List.forall_mem_cons.1 h
    exact ⟨⟨isBare_of_lexeme hkey, hvalue.isFormWord.1, trivial⟩, ih hrest⟩

theorem Arguments.respell_of_forms {entries others : List (String × Literal)}
    (h : ∀ entry ∈ entries, entry.2.Legible) (h' : ∀ entry ∈ others, entry.2.Legible)
    (heq : Arguments.forms entries = Arguments.forms others) :
    (⟨entries⟩ : Arguments).respell Text.printed = (⟨others⟩ : Arguments).respell Text.printed := by
  simp only [respell, Arguments.mk.injEq]
  induction entries generalizing others with
  | nil =>
    cases others with
    | nil => rfl
    | cons => cases heq
  | cons entry rest ih =>
    cases others with
    | nil => cases heq
    | cons entry' rest' =>
      obtain ⟨hentry, hrest⟩ := Forms.cons.inj heq
      obtain ⟨hkey, hvalue⟩ := Form.list.inj hentry
      obtain ⟨hl, hlrest⟩ := List.forall_mem_cons.1 h
      obtain ⟨hm, hmrest⟩ := List.forall_mem_cons.1 h'
      rw [List.map_cons, List.map_cons, hkey,
        hl.respell_eq hm (Form.word.inj (Forms.cons.inj hvalue).1), ih hlrest hmrest hrest]

theorem Forms.ofJump_injective {jump jump' : Option String}
    (h : Forms.ofJump jump = Forms.ofJump jump') : jump = jump' := by
  cases jump with
  | none =>
    cases jump' with
    | none => rfl
    | some => cases h
  | some label =>
    cases jump' with
    | none => cases h
    | some label' =>
      obtain ⟨-, hlabel⟩ := Form.list.inj (Forms.cons.inj h).1
      rw [Form.word.inj (Forms.cons.inj hlabel).1]

theorem Forms.legible_ofJump {jump : Option String}
    (h : ∀ label ∈ jump, Lexeme .identifier label.toList) : (ofJump jump).Legible := by
  cases jump with
  | none => trivial
  | some label =>
    have hlabel := isBare_of_lexeme (h label rfl)
    exact ⟨⟨isBare_of_all (by decide) (by decide), .bare hlabel, trivial⟩, trivial⟩

theorem Expression.form_ofTree (t : Tree) : (ofTree t).form = t.form := by
  rw [form, tree?_ofTree]

theorem Expression.sexpr_ofTree (t : Tree) : (ofTree t).sexpr = t.sexpr :=
  sexprWithin_of_treeWithin? (tree?_ofTree t)

namespace Statement.Legible

theorem command {name : String} {arguments : Arguments} {line : Nat}
    (h : (command name arguments line).Legible) :
    Lexeme .identifier name.toList ∧
      ∀ entry ∈ arguments.entries, Lexeme .identifier entry.1.toList ∧ entry.2.Legible := by
  obtain ⟨hname, -, hlexemes⟩ := h.writable
  refine ⟨hname, fun entry hentry => ⟨(hlexemes entry hentry).1, (hlexemes entry hentry).2, ?_⟩⟩
  exact h.finite entry.2 (List.mem_map_of_mem hentry)

theorem conditional {condition : Expression} {body : Statement} {jump : Option String}
    {line : Nat} (h : (conditional condition body jump line).Legible) :
    (∃ t, condition = .ofTree t ∧ ∀ x ∈ t.yield, x.Legible) ∧ body.Legible ∧
      ∀ label ∈ jump, Lexeme .identifier label.toList := by
  obtain ⟨⟨t, rfl, ht⟩, hbody, hjump⟩ := h.writable
  refine ⟨⟨t, rfl, fun x hx => ?_⟩, ⟨hbody, fun key hkey => ?_, fun l hl => ?_⟩,
    fun label hlabel => (hjump label hlabel).1⟩
  · have hlexeme := (ht.symbols x hx).1
    have hof := Expression.isOf_of_treeWithin? (Expression.tree?_ofTree t) x hx
    cases x with
    | literal l line => exact ⟨hlexeme, h.finite l (List.mem_append_left _ hof)⟩
    | name text line => exact hlexeme
    | key text => exact ⟨hlexeme, h.keys text (List.mem_append_left _ hof)⟩
    | sign kind => trivial
  · exact h.keys key (List.mem_append_right _ hkey)
  · exact h.finite l (List.mem_append_right _ hl)

/-- What is written of a statement is its form, and that is legible. -/
theorem form {st : Statement} (h : st.Legible) :
    st.form.Legible ∧ st.form.written = st.sexpr.toList := by
  induction st with
  | dialogue text line =>
    obtain ⟨t, ht, hquotable⟩ := lexeme_string.1 h.writable
    refine ⟨⟨isBare_of_all (by decide) (by decide), ?_, trivial⟩, ?_⟩
    · rw [Form.Legible, ht]
      exact .string hquotable
    · simp [Statement.form, Form.written, Forms.written, sexpr]
  | command name arguments line =>
    obtain ⟨hname, hentries⟩ := h.command
    refine ⟨⟨isBare_of_all (by decide) (by decide), .bare (isBare_of_lexeme hname),
      Arguments.legible_forms hentries⟩, ?_⟩
    simp [Statement.form, Form.written, Forms.written, sexpr, Arguments.written_forms]
  | conditional condition body jump line ih =>
    obtain ⟨⟨t, rfl, ht⟩, hbody, hjump⟩ := h.conditional
    obtain ⟨hlegible, hwritten⟩ := ih hbody
    have hcondition : (Expression.ofTree t).form.Legible := by
      rw [Expression.form_ofTree]
      exact legible_form.1 t ht
    have hsexpr : (Expression.ofTree t).form.written = (Expression.ofTree t).sexpr.toList := by
      rw [Expression.form_ofTree, Expression.sexpr_ofTree, written_form.1]
    refine ⟨⟨isBare_of_all (by decide) (by decide), hcondition, hlegible,
      Forms.legible_ofJump hjump⟩, ?_⟩
    cases jump <;>
      simp [Statement.form, Forms.ofJump, Form.written, Forms.written, sexpr, hsexpr, hwritten]

/-- Statements of the same form are the same but for lines and the spelling of numbers. -/
theorem respell_eq {st st' : Statement} (h : st.Legible) (h' : st'.Legible)
    (heq : st.form = st'.form) :
    (st.withLine 0).respell Text.printed = (st'.withLine 0).respell Text.printed := by
  induction st generalizing st' with
  | dialogue text line =>
    cases st' with
    | dialogue text' line' =>
      have htext := Form.word.inj (Forms.cons.inj (Form.list.inj heq).2).1
      simp only [withLine, respell, htext]
    | command => exact absurd (Form.list.inj heq).1 (by decide)
    | conditional => exact absurd (Form.list.inj heq).1 (by decide)
  | command name arguments line =>
    cases st' with
    | dialogue => exact absurd (Form.list.inj heq).1 (by decide)
    | command name' arguments' line' =>
      obtain ⟨hname, hentries⟩ := Forms.cons.inj (Form.list.inj heq).2
      have harguments := Arguments.respell_of_forms
        (fun entry hentry => (h.command.2 entry hentry).2)
        (fun entry hentry => (h'.command.2 entry hentry).2) hentries
      simp only [withLine, respell, Form.word.inj hname, harguments]
    | conditional => exact absurd (Form.list.inj heq).1 (by decide)
  | conditional condition body jump line ih =>
    cases st' with
    | dialogue => exact absurd (Form.list.inj heq).1 (by decide)
    | command => exact absurd (Form.list.inj heq).1 (by decide)
    | conditional condition' body' jump' line' =>
      obtain ⟨⟨t, rfl, ht⟩, hbody, -⟩ := h.conditional
      obtain ⟨⟨u, rfl, hu⟩, hbody', -⟩ := h'.conditional
      obtain ⟨hcondition, hparts⟩ := Forms.cons.inj (Form.list.inj heq).2
      obtain ⟨hbodies, hjumps⟩ := Forms.cons.inj hparts
      rw [Expression.form_ofTree, Expression.form_ofTree] at hcondition
      simp only [withLine, respell, ih hbody hbody' hbodies, Forms.ofJump_injective hjumps,
        ← Expression.ofTree_withLine, ← Expression.ofTree_respell,
        respell_of_form.1 t ht u hu hcondition]

end Statement.Legible

theorem Program.toList_sexpr (p : Program) :
    p.sexpr.toList = separatedBy '\n' (p.statements.map fun st => st.sexpr.toList) := by
  obtain ⟨sts⟩ := p
  rw [sexpr]
  induction sts with
  | nil => rfl
  | cons st sts ih =>
    cases sts with
    | nil => rfl
    | cons st' sts =>
      rw [List.map_cons, List.map_cons] at ih ⊢
      rw [String.intercalate_cons_cons, String.toList_append, String.toList_append, ih]
      simp [separatedBy_cons_cons]

theorem respell_of_forms {sts sts' : List Statement} (h : ∀ st ∈ sts, st.Legible)
    (h' : ∀ st ∈ sts', st.Legible) (heq : sts.map Statement.form = sts'.map Statement.form) :
    (sts.map (Statement.withLine 0)).map (Statement.respell Text.printed) =
      (sts'.map (Statement.withLine 0)).map (Statement.respell Text.printed) := by
  induction sts generalizing sts' with
  | nil =>
    cases sts' with
    | nil => rfl
    | cons => cases heq
  | cons st sts ih =>
    cases sts' with
    | nil => cases heq
    | cons st' sts' =>
      obtain ⟨hst, hsts⟩ := List.forall_mem_cons.1 h
      obtain ⟨hst', hsts'⟩ := List.forall_mem_cons.1 h'
      obtain ⟨hform, hforms⟩ := List.cons.inj heq
      simp only [List.map_cons, hst.respell_eq hst' hform, ih hsts hsts' hforms]

/-! ## Strings -/

namespace Statement

/-- The text of the line of dialogue that the statement comes to, if it comes to one. -/
def spoken? : Statement → Option String
  | dialogue text _ => some text
  | command _ _ _ => none
  | conditional _ body _ _ => body.spoken?

/-- The texts of the strings, spoken or among the literals. -/
def strings (st : Statement) : List String :=
  st.spoken?.toList ++ (st.literals.filter (·.kind = .string)).map (·.text)

theorem Writable.lexeme_spoken {st : Statement} (h : st.Writable) {text : String}
    (htext : text ∈ st.spoken?) : Lexeme .string text.toList := by
  induction st with
  | dialogue text' line =>
    obtain rfl := Option.some.inj htext
    exact h
  | command name arguments line => cases htext
  | conditional condition body jump line ih => exact ih h.2.1 htext

theorem Writable.lexeme_strings {st : Statement} (h : st.Writable) :
    ∀ text ∈ st.strings, Lexeme .string text.toList := by
  intro text htext
  rcases List.mem_append.1 htext with hspoken | hliteral
  · exact h.lexeme_spoken (Option.mem_toList.1 hspoken)
  · obtain ⟨l, hl, rfl⟩ := List.mem_map.1 hliteral
    obtain ⟨hl, hk⟩ := List.mem_filter.1 hl
    have hlexeme := h.lexeme_literals l hl
    rwa [of_decide_eq_true hk] at hlexeme

end Statement

/-- **An S-expression tells which program it was written of**, up to lines and the spelling of
    numbers: every string is as it was. -/
theorem Program.eq_of_sexpr {source source' : String} {p q : Program}
    (hp : Program.parse source = .ok p) (hq : Program.parse source' = .ok q)
    (hkeys : ∀ st ∈ p.statements ++ q.statements, ∀ key ∈ st.callKeys,
      key ≠ "group" ∧ key ≠ "call")
    (hfinite : ∀ st ∈ p.statements ++ q.statements, ∀ l ∈ st.literals, l.kind = .number →
      l.sexpr ≠ "inf")
    (h : p.sexpr = q.sexpr) :
    p.withoutLines.respell Text.printed = q.withoutLines.respell Text.printed ∧
      ∀ st ∈ p.statements ++ q.statements, ∀ text ∈ st.strings, Text.printed text = text := by
  have hlegible : ∀ st ∈ p.statements, st.Legible := fun st hst =>
    ⟨writable_of_parse hp st hst, hkeys st (List.mem_append_left _ hst),
      hfinite st (List.mem_append_left _ hst)⟩
  have hlegible' : ∀ st ∈ q.statements, st.Legible := fun st hst =>
    ⟨writable_of_parse hq st hst, hkeys st (List.mem_append_right _ hst),
      hfinite st (List.mem_append_right _ hst)⟩
  have hforms : p.statements.map Statement.form = q.statements.map Statement.form := by
    have hwritten : ∀ {sts : List Statement}, (∀ st ∈ sts, st.Legible) →
        (sts.map Statement.form).map Form.written = sts.map fun st => st.sexpr.toList := by
      intro sts hsts
      rw [List.map_map]
      exact List.map_congr_left fun st hst => (hsts st hst).form.2
    refine separatedBy_written_inj
      (List.forall_mem_map.2 fun st hst => (hlegible st hst).form.1)
      (List.forall_mem_map.2 fun st hst => (hlegible' st hst).form.1) ?_
    rw [hwritten hlegible, hwritten hlegible', ← toList_sexpr, ← toList_sexpr, h]
  refine ⟨?_, fun st hst text htext => Text.printed_string ?_⟩
  · rw [withoutLines, withoutLines, respell, respell, respell_of_forms hlegible hlegible' hforms]
  · rcases List.mem_append.1 hst with hst | hst
    · exact (hlegible st hst).writable.lexeme_strings text htext
    · exact (hlegible' st hst).writable.lexeme_strings text htext

/-- A program on other lines, with a number in another spelling. -/
theorem Program.eq_of_sexpr_respelled :
    ∃ p q, parse "※ファイル（パス：「家」）＞１ または（謎）\n「あ（い」\n→終\n命令 鍵：0.5" = .ok p ∧
      parse "\n※ ファイル（パス：「家」） > 1.0 or （謎）\n\n「あ（い」\n→終\n命令　鍵：０．５０" = .ok q ∧
      (∀ st ∈ p.statements ++ q.statements, ∀ key ∈ st.callKeys, key ≠ "group" ∧ key ≠ "call") ∧
      (∀ st ∈ p.statements ++ q.statements, ∀ l ∈ st.literals, l.kind = .number →
        l.sexpr ≠ "inf") ∧
      p.sexpr = q.sexpr ∧
      p.withoutLines.respell Text.printed = q.withoutLines.respell Text.printed ∧
      ∀ st ∈ p.statements ++ q.statements, ∀ text ∈ st.strings, Text.printed text = text := by
  have hparsed : ∀ {source : String} {p : Program}, (parse source).toOption = some p →
      parse source = .ok p := by
    intro source p h
    cases hr : parse source with
    | ok q =>
      rw [hr] at h
      rw [Option.some.inj h]
    | error e =>
      rw [hr] at h
      cases h
  have hchecked : ((parse
      "※ファイル（パス：「家」）＞１ または（謎）\n「あ（い」\n→終\n命令 鍵：0.5").toOption.bind fun p =>
        (parse "\n※ ファイル（パス：「家」） > 1.0 or （謎）\n\n「あ（い」\n→終\n命令　鍵：０．５０").toOption.map
          fun q => decide ((∀ st ∈ p.statements ++ q.statements, ∀ key ∈ st.callKeys,
              key ≠ "group" ∧ key ≠ "call") ∧
            (∀ st ∈ p.statements ++ q.statements, ∀ l ∈ st.literals, l.kind = .number →
              l.sexpr ≠ "inf") ∧ p.sexpr = q.sexpr)) = some true := by
    decide +kernel
  obtain ⟨p, hp, hrest⟩ := Option.bind_eq_some_iff.1 hchecked
  obtain ⟨q, hq, hall⟩ := Option.map_eq_some_iff.1 hrest
  obtain ⟨hkeys, hfinite, hsexpr⟩ := of_decide_eq_true hall
  exact ⟨p, q, hparsed hp, hparsed hq, hkeys, hfinite, hsexpr,
    eq_of_sexpr (hparsed hp) (hparsed hq) hkeys hfinite hsexpr⟩

end StageScript
