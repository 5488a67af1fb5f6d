import StageScript.Proofs.Acceptance
import StageScript.Proofs.Lines

set_option autoImplicit false

/-! # Writing programs

A writer of programs, and what makes a program one that it writes faithfully. `Statement.Writable`
gathers what holds of everything that has been parsed: names, keys and literals are the text of a
token of their kind, no key comes twice, conditions are levelled and hold no bare word before a
parenthesis, and no jump belongs to a guard inside of which another one could have taken it. -/

namespace StageScript

open Scanner

/-! ## The writer -/

/-- The texts with a character between each two. -/
def separatedBy (c : Char) : List (List Char) → List Char
  | [] => []
  | [w] => w
  | w :: ws => w ++ c :: separatedBy c ws

theorem separatedBy_cons_cons (c : Char) (v w : List Char) (ws : List (List Char)) :
    separatedBy c (v :: w :: ws) = v ++ c :: separatedBy c (w :: ws) := rfl

theorem separatedBy_cons (c : Char) (w : List Char) (ws : List (List Char)) :
    separatedBy c (w :: ws) = w ++ ws.flatMap (c :: ·) := by
  induction ws generalizing w with
  | nil => simp [separatedBy]
  | cons v ws ih => rw [separatedBy_cons_cons, ih, List.flatMap_cons, List.cons_append]

/-- The text of a literal, a name or a key, and one spelling for every sign. -/
def Symbol.written : Symbol → List Char
  | literal l _ => l.text.toList
  | name text _ | key text => text.toList
  | sign kind => spelling kind

/-- The tokens of an expression with blanks between them. -/
def Expression.written (e : Expression) : List Char :=
  match e.tree? with
  | some t => separatedBy ' ' (t.yield.map Symbol.written)
  | none => []

/-- A key, a colon and a value. -/
def Arguments.writtenEntry (entry : String × Literal) : List Char :=
  entry.1.toList ++ '：' :: entry.2.text.toList

def Statement.written : Statement → List Char
  | dialogue text _ => text.toList
  | command name arguments _ =>
    separatedBy ' ' (name.toList :: arguments.entries.map Arguments.writtenEntry)
  | conditional condition body none _ =>
    '※' :: (condition.written ++ '\n' :: body.written)
  | conditional condition body (some label) _ =>
    '※' :: (condition.written ++ '\n' :: (body.written ++ '\n' :: '→' :: label.toList))

/-- The statements of a program, each on lines of its own. -/
def Program.written (p : Program) : String :=
  String.ofList (separatedBy '\n' (p.statements.map Statement.written))

/-! ## What can be written -/

/-- The symbol is a token of its kind when it is written, and does not end its line. -/
def Symbol.Writable (x : Symbol) : Prop := Lexeme x.kind x.written ∧ x.kind ≠ .newline

/-- The tree is the one that is read from its symbols, and all of them can be written. -/
structure Tree.Writable (t : Tree) : Prop where
  levelled : t.Levelled
  apart : WordsApart t.yield
  symbols : ∀ x ∈ t.yield, x.Writable

/-- The keys and values are tokens, and no key comes twice. -/
structure Arguments.Writable (a : Arguments) : Prop where
  nodup : (a.entries.map Prod.fst).Nodup
  lexemes : ∀ entry ∈ a.entries, Lexeme .identifier entry.1.toList ∧
    Lexeme entry.2.kind.token entry.2.text.toList

/-- A jump behind the statement would belong to it. -/
def Statement.IsOpen : Statement → Prop
  | conditional _ _ none _ => True
  | conditional _ _ (some _) _ | dialogue .. | command .. => False

/-- What follows takes no jump and is no newline, so that a statement can be open before it. -/
def Stream.Closes (s : Stream) : Prop :=
  ∃ n, s.head = .token n ∧ n.kind ≠ .newline ∧ n.kind ≠ .arrow

def Statement.Writable : Statement → Prop
  | dialogue text _ => Lexeme .string text.toList
  | command name arguments _ => Lexeme .identifier name.toList ∧ arguments.Writable
  | conditional condition body label _ =>
    (∃ t, condition = .ofTree t ∧ t.Writable) ∧ body.Writable ∧
      ∀ text ∈ label, Lexeme .identifier text.toList ∧ ¬body.IsOpen

/-! ## Arguments -/

theorem Arguments.mem_insertEntry {key : String} {v : Literal} {entry : String × Literal}
    {entries : List (String × Literal)} (h : entry ∈ insertEntry key v entries) :
    entry = (key, v) ∨ entry ∈ entries := by
  induction entries with
  | nil => exact .inl (List.mem_singleton.1 h)
  | cons first rest ih =>
    obtain ⟨k, w⟩ := first
    rw [insertEntry] at h
    split at h
    · next hk =>
      subst hk
      rcases List.mem_cons.1 h with rfl | h
      · exact .inl rfl
      · exact .inr (List.mem_cons_of_mem _ h)
    · rcases List.mem_cons.1 h with rfl | h
      · exact .inr List.mem_cons_self
      · exact (ih h).imp id (List.mem_cons_of_mem _)

theorem Arguments.insertEntry_of_mem {key : String} {v : Literal}
    {entries : List (String × Literal)} (h : key ∈ entries.map Prod.fst) :
    (insertEntry key v entries).map Prod.fst = entries.map Prod.fst := by
  induction entries with
  | nil => cases h
  | cons first rest ih =>
    obtain ⟨k, w⟩ := first
    rw [insertEntry]
    split
    · rfl
    · next hk =>
      have hrest : key ∈ rest.map Prod.fst := (List.mem_cons.1 h).resolve_left (Ne.symm hk)
      rw [List.map_cons, List.map_cons, ih hrest]

/-- A new key goes to the end. -/
theorem Arguments.insertEntry_of_not_mem {key : String} {v : Literal}
    {entries : List (String × Literal)} (h : key ∉ entries.map Prod.fst) :
    insertEntry key v entries = entries ++ [(key, v)] := by
  induction entries with
  | nil => rfl
  | cons first rest ih =>
    obtain ⟨k, w⟩ := first
    obtain ⟨hk, hrest⟩ := not_or.1 (List.mem_cons.not.1 h)
    rw [insertEntry, if_neg (Ne.symm hk), ih hrest, List.cons_append]

theorem Arguments.writable_empty : empty.Writable where
  nodup := List.nodup_nil
  lexemes _ h := by cases h

theorem Arguments.Writable.insert {a : Arguments} (h : a.Writable) {key : String} {v : Literal}
    (hkey : Lexeme .identifier key.toList) (hv : Lexeme v.kind.token v.text.toList) :
    (a.insert key v).Writable where
  nodup := by
    -- a key that is there keeps its place, and a new one goes to the end
    by_cases hmem : key ∈ a.entries.map Prod.fst
    · rw [Arguments.insert, insertEntry_of_mem hmem]
      exact h.nodup
    · rw [Arguments.insert, insertEntry_of_not_mem hmem, List.map_append, List.map_singleton]
      refine List.nodup_append.2 ⟨h.nodup, List.nodup_cons.2 ⟨by simp, List.nodup_nil⟩, ?_⟩
      intro k hk l hl
      rw [List.mem_singleton.1 hl]
      rintro rfl
      exact hmem hk
  lexemes entry hentry := by
    rcases mem_insertEntry hentry with rfl | hentry
    · exact ⟨hkey, hv⟩
    · exact h.lexemes entry hentry

theorem Arguments.lexeme_defaultKey : Lexeme .identifier defaultKey.toList :=
  lexeme_of_shape_eq (by decide +kernel)

/-! ## Everything that is parsed can be written -/

/-- The texts of the tokens that are still to be read are lexemes. -/
def Stream.Lexed (s : Stream) : Prop := ∀ t, Item.token t ∈ s.items → Lexeme t.kind t.text.toList

theorem Stream.lexed_prepend {us : List Token} {s : Stream} :
    (s.prepend us).Lexed ↔ (∀ u ∈ us, Lexeme u.kind u.text.toList) ∧ s.Lexed := by
  simp only [Lexed, prepend, List.mem_append, List.mem_map]
  constructor
  · intro h
    exact ⟨fun u hu => h u (.inl ⟨u, hu, rfl⟩), fun t ht => h t (.inr ht)⟩
  · rintro ⟨hus, hs⟩ t (⟨u, hu, heq⟩ | ht)
    · cases heq
      exact hus _ hu
    · exact hs t ht

theorem Stream.Reads.lexed {s rest : Stream} {P : List TokenKind → Prop} (h : s.Reads P rest)
    (hs : s.Lexed) : rest.Lexed := by
  obtain ⟨us, rfl, -⟩ := h
  exact (lexed_prepend.1 hs).2

theorem Stream.Lexed.head {s : Stream} (hs : s.Lexed) {t : Token} (h : s.head = .token t)
    (ht : t.kind ≠ .endOfFile) : Lexeme t.kind t.text.toList ∧ s.tail.Lexed := by
  rw [eq_prepend_of_head h ht] at hs
  obtain ⟨htoken, htail⟩ := lexed_prepend.1 hs
  exact ⟨htoken t (List.mem_singleton.2 rfl), htail⟩

/-- A newline is no part of an expression. -/
theorem Tree.kind_ne_newline (t : Tree) : ∀ x ∈ t.yield, x.kind ≠ .newline := by
  refine (Tree.induct (P := fun t => ∀ x ∈ t.yield, x.kind ≠ .newline)
    (Q := fun a => ∀ x ∈ a.yield, x.kind ≠ .newline) ?_ ?_ ?_ ?_ ?_ ?_).1 t
  · intro l line x hx
    obtain rfl := List.mem_singleton.1 hx
    cases h : l.kind <;> simp [Symbol.kind, LiteralKind.token, h]
  · intro inner ih x hx
    simp only [Tree.yield, List.cons_append, List.mem_cons, List.mem_append, List.not_mem_nil,
      or_false] at hx
    rcases hx with rfl | hx | rfl
    · simp [Symbol.kind]
    · exact ih x hx
    · simp [Symbol.kind]
  · intro o lhs rhs ihl ihr x hx
    rw [Tree.yield_join] at hx
    rcases List.mem_append.1 hx with hx | hx
    · exact ihl x hx
    rcases List.mem_cons.1 hx with rfl | hx
    · rcases o with c | c <;> cases c <;> simp [Symbol.kind, Operator.token]
    · exact ihr x hx
  · intro name arguments line ih x hx
    simp only [Tree.yield, List.cons_append, List.mem_cons, List.mem_append, List.not_mem_nil,
      or_false] at hx
    rcases hx with rfl | rfl | hx | rfl
    · simp [Symbol.kind]
    · simp [Symbol.kind]
    · exact ih x hx
    · simp [Symbol.kind]
  · intro x hx
    cases hx
  · intro key value rest ihv ihr x hx
    rw [TreeArguments.yield] at hx
    rcases List.mem_append.1 hx with hx | hx
    · cases key with
      | none => cases hx
      | some key =>
        simp only [Symbol.ofKey, List.mem_cons, List.not_mem_nil, or_false] at hx
        rcases hx with rfl | rfl <;> simp [Symbol.kind]
    rcases List.mem_append.1 hx with hx | hx
    · exact ihv x hx
    · exact ihr x hx

theorem Spelled.kind_ne_newline {us : List Token} {t : Tree} (h : Spelled us t.yield) :
    ∀ u ∈ us, u.kind ≠ .newline := by
  intro u hu hk
  have hkind : u.kind ∈ t.yield.map Symbol.kind := h.map_kind ▸ List.mem_map_of_mem hu
  obtain ⟨x, hx, hxk⟩ := List.mem_map.1 hkind
  exact t.kind_ne_newline x hx (hxk.trans hk)

theorem Token.Spells.lexeme {u : Token} {x : Symbol} (h : u.Spells x)
    (hu : Lexeme u.kind u.text.toList) : Lexeme x.kind x.written := by
  cases x with
  | literal l line =>
    obtain ⟨hk, htext, -⟩ := h
    rwa [hk, htext] at hu
  | name text line =>
    obtain ⟨hk, htext, -⟩ := h
    rwa [hk, htext] at hu
  | key text =>
    obtain ⟨hk, htext⟩ := h
    rwa [hk, htext] at hu
  | sign kind =>
    have hk : u.kind = kind := h
    exact lexeme_spelling (hk ▸ hu.ne_endOfFile)

theorem Spelled.lexeme {us : List Token} {xs : List Symbol} (h : Spelled us xs)
    (hus : ∀ u ∈ us, Lexeme u.kind u.text.toList) : ∀ x ∈ xs, Lexeme x.kind x.written := by
  induction h with
  | nil => simp
  | cons hspells _ ih =>
    intro x hx
    rcases List.mem_cons.1 hx with rfl | hx
    · exact hspells.lexeme (hus _ List.mem_cons_self)
    · exact ih (fun u hu => hus u (List.mem_cons_of_mem _ hu)) x hx

namespace Parser

theorem treeAt_writable {power : Nat} {s rest : Stream} {t : Tree} (hs : s.Lexed)
    (h : treeAt power s = .ok t rest) : t.Writable ∧ rest.Lexed := by
  obtain ⟨⟨us, rfl, hus⟩, hread⟩ := treeAt_sound h
  obtain ⟨hlexemes, hrest⟩ := Stream.lexed_prepend.1 hs
  obtain ⟨n, -, hapart, -⟩ := hread.stop
  exact ⟨⟨hread.levelled, hapart.of_append,
    fun x hx => ⟨hus.lexeme hlexemes x hx, t.kind_ne_newline x hx⟩⟩, hrest⟩

theorem ArgumentRead.lexeme {us : List Token} {key : String} {v : Literal}
    (h : ArgumentRead us key v) (hus : ∀ u ∈ us, Lexeme u.kind u.text.toList) :
    Lexeme .identifier key.toList ∧ Lexeme v.kind.token v.text.toList := by
  cases h with
  | plain hk htext =>
    have hu := hus _ List.mem_cons_self
    rw [hk, htext] at hu
    exact ⟨Arguments.lexeme_defaultKey, hu⟩
  | keyed hword hcolon hk htext =>
    have hkey := hus _ List.mem_cons_self
    have hu := hus _ (List.mem_cons_of_mem _ (List.mem_cons_of_mem _ List.mem_cons_self))
    rw [hword] at hkey
    rw [hk, htext] at hu
    exact ⟨hkey, hu⟩

theorem commandArguments_writable {a b : Arguments} {s rest : Stream} (hs : s.Lexed)
    (ha : a.Writable) (h : commandArguments a s = .ok b rest) : b.Writable := by
  rcases commandArguments_eq_ok h with ⟨rfl, -⟩ | ⟨us, key, v, mid, -, rfl, hread, -, -, hmore⟩
  · exact ha
  · have hlt := hread.length_lt mid
    obtain ⟨hus, hrest⟩ := Stream.lexed_prepend.1 hs
    obtain ⟨hkey, hv⟩ := hread.lexeme hus
    exact commandArguments_writable hrest (ha.insert hkey hv) hmore
termination_by s.items.length

/-- What is left behind an open statement closes it. -/
theorem closes_of_isOpen {s rest : Stream} {st : Statement} (h : statement s = .ok st rest)
    (hopen : st.IsOpen) : rest.Closes := by
  cases statement_eq_ok.1 h with
  | dialogue => exact hopen.elim
  | command => exact hopen.elim
  | @conditional t c behind start done last body label hhead hk hc hstart hbody hlast hlabel =>
    rcases jump_eq_ok.1 hlabel with ⟨n, hn, hnk, -, rfl⟩ | ⟨_, _, _, _, _, _, _, rfl⟩
    · obtain ⟨-, rfl⟩ := skipNewlines_eq_ok.1 hlast
      obtain ⟨-, -, -, hnewline⟩ := done.exists_newlines
      rw [hn] at hnewline
      exact ⟨n, hn, by simpa [isNewline] using hnewline, hnk⟩
    · exact hopen.elim

theorem statement_writable {s rest : Stream} {st : Statement} (hs : s.Lexed)
    (h : statement s = .ok st rest) : st.Writable := by
  cases statement_eq_ok.1 h with
  | @dialogue t hhead hk hend =>
    obtain ⟨ht, -⟩ := hs.head hhead (by simp [hk])
    rwa [hk] at ht
  | @command t a mid hhead hk ha hend =>
    obtain ⟨ht, htail⟩ := hs.head hhead (by simp [hk])
    rw [hk] at ht
    exact ⟨ht, commandArguments_writable htail Arguments.writable_empty ha⟩
  | @conditional t c behind start done last body label hhead hk hc hstart hbody hlast hlabel =>
    obtain ⟨-, rfl⟩ := skipNewlines_eq_ok.1 hstart
    obtain ⟨-, rfl⟩ := skipNewlines_eq_ok.1 hlast
    have hlt := Stream.length_tail_of_head hhead (by simp [hk])
    have hlt' := Parsers.advance_whole.tree _ _ c behind hc
    have hle := behind.length_dropNewlines_le
    obtain ⟨-, htail⟩ := hs.head hhead (by simp [hk])
    obtain ⟨hc', hbehind⟩ := treeAt_writable htail hc
    have hstart' : behind.dropNewlines.Lexed := behind.reads_dropNewlines.lexed hbehind
    have hdone : done.dropNewlines.Lexed :=
      done.reads_dropNewlines.lexed ((statement_derives hbody).lexed hstart')
    refine ⟨⟨c, rfl, hc'⟩, statement_writable hstart' hbody, fun text htext => ?_⟩
    obtain ⟨_, _, _, rfl, _⟩ | ⟨arrow, word, harrow, harrowk, hword, hwordk, -, rfl⟩ :=
      jump_eq_ok.1 hlabel
    · cases htext
    · cases htext
      obtain ⟨-, hlabel⟩ := hdone.head harrow (by simp [harrowk])
      obtain ⟨hw, -⟩ := hlabel.head hword (by simp [hwordk])
      rw [hwordk] at hw
      refine ⟨hw, fun hopen => ?_⟩
      -- an open body would have taken the arrow itself
      obtain ⟨n, hn, hnewline, hnarrow⟩ := closes_of_isOpen hbody hopen
      rw [Stream.dropNewlines_of_head hn hnewline, hn] at harrow
      cases harrow
      exact hnarrow harrowk
termination_by s.items.length

theorem statements_writable {s rest : Stream} {sts : List Statement} (hs : s.Lexed)
    (h : statements s = .ok sts rest) : ∀ st ∈ sts, st.Writable := by
  obtain ⟨t, hhead, ⟨hk, htail⟩ | ⟨hk, rfl, rfl⟩ | ⟨-, -, st, mid, more, hst, hmore, rfl⟩⟩ :=
    statements_eq_ok.1 h
  · have hlt := Stream.length_tail_of_head hhead (by simp [hk])
    exact statements_writable (hs.head hhead (by simp [hk])).2 htail
  · simp
  · have hlt := Parsers.advance_whole.statement _ st mid hst
    have hmid := (statement_derives hst).lexed hs
    intro other hother
    rcases List.mem_cons.1 hother with rfl | hother
    · exact statement_writable hs hst
    · exact statements_writable hmid hmore other hother
termination_by s.items.length

end Parser

/-- Every statement of a program that has been parsed can be written. -/
theorem Program.writable_of_parse {source : String} {p : Program}
    (h : Program.parse source = .ok p) : ∀ st ∈ p.statements, st.Writable := by
  obtain ⟨rest, hrun⟩ := Program.parse_eq_ok.1 h
  exact Parser.statements_writable (fun _ => lexeme_of_mem) hrun

end StageScript
