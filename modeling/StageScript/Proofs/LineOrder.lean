import StageScript.Proofs.Statements
import StageScript.Proofs.Tiling
import StageScript.Proofs.Unfolding
import StageScript.Proofs.Writing

set_option autoImplicit false

/-! # The lines of statements

The lines of the items of a script count its newline tokens (`Stream.linesFrom_ofString`): no other
item holds the end of a line. An expression takes no newline, so that all of it is on the line of
its guard, and a statement ends with one or with the file, so that the next one starts on a later
line. Main statement: `Program.lined_of_parse`. -/

namespace StageScript

/-! ## Lines of items -/

/-- The items are on the line, and behind every newline on the next one. -/
def Item.LinesFrom : Nat → List Item → Prop
  | _, [] => True
  | line, x :: xs =>
    x.line = line ∧ LinesFrom (if Parser.isNewline x then line + 1 else line) xs

/-- What is left of a script starts on the line. -/
def Stream.LinesFrom (line : Nat) (s : Stream) : Prop := Item.LinesFrom line s.toList

namespace Scanner

/-- Of what starts at a character, only that character can be a newline. -/
theorem newline_notMem_take (c : Char) (cs : List Char) : '\n' ∉ cs.take (shape c cs).2 := by
  have hrest : '\n' ∉ cs.take (restOfLine cs) := by
    have htake : cs.take (restOfLine cs) = cs.takeWhile (· != '\n') :=
      (List.prefix_iff_eq_take.1 (List.takeWhile_prefix _)).symm
    rw [htake]
    intro hline
    simpa using List.mem_takeWhile_imp hline
  refine shape_cases (P := fun f => '\n' ∉ cs.take (f cs).2) c (fun _ => hrest) (fun _ => by simp)
    (fun _ => by simp) (fun plain withEqual => ?_) ?_
    (Kept.number separated_nil _ _ rfl).1 (Kept.word c separated_nil _ _ rfl).1
  · cases cs with
    | nil => simp
    | cons d cs =>
      by_cases hd : isEqualSign d = true
      · have hline : '\n' ≠ d := by
          rintro rfl
          exact absurd hd (by decide)
        simpa [comparison, equalLength, hd] using hline
      · simp [comparison, equalLength, hd]
  · dsimp only
    split
    · next n hn => exact (Kept.closing?_take [] hn).1
    · exact hrest

/-- What starts is a newline, or an error that shows one. -/
def Shape.IsNewline (s : Shape) : Prop :=
  s = .token .newline ∨ s = .error (.unrecognized '\n')

/-- Only the newline is scanned as one. -/
theorem not_isNewline_shape {c : Char} (hc : c ≠ '\n') (cs : List Char) :
    ¬(shape c cs).1.IsNewline := by
  rintro (h | h)
  · obtain ⟨n, hstarts⟩ := exists_starts h
    cases hstarts with
    | mark hmark => exact hc (by simpa [marks] using hmark)
    | sign hsign => cases hsign
    | signEqual hsign => cases hsign
    | word _ _ hkind => exact absurd (hkind ▸ ofWord_mem _) (by decide)
  · obtain ⟨n, hstarts⟩ := exists_starts h
    cases hstarts with
    | sign hsign =>
      cases hsign with
      | bang hmem => simp at hmem
    | unknown => exact hc rfl

/-- A newline takes the place to the next line, and what else is scanned leaves it on its own. -/
theorem line_afterAll_shape (p : Place) (c : Char) (cs : List Char) :
    (p.afterAll (c :: cs.take (shape c cs).2)).line =
      if (shape c cs).1 = .token .newline then p.line + 1 else p.line := by
  have htake := List.count_eq_zero_of_not_mem (newline_notMem_take c cs)
  rw [Place.afterAll_eq, List.count_cons, htake, Nat.zero_add]
  by_cases hc : c = '\n'
  · subst hc
    have hshape : (shape '\n' cs).1 = .token .newline := rfl
    simp [hshape]
  · have hshape : (shape c cs).1 ≠ .token .newline := fun h => not_isNewline_shape hc cs (.inl h)
    simp [hc, hshape]

/-- The stream of a text goes on behind what starts at its first character. -/
theorem toList_streamAt_cons (p : Place) (c : Char) (cs : List Char) :
    (streamAt p (c :: cs)).toList =
      ((shape c cs).1.item? p (c :: cs.take (shape c cs).2)).toList ++
        (streamAt (p.afterAll (c :: cs.take (shape c cs).2)) (cs.drop (shape c cs).2)).toList := by
  rw [streamAt_cons]
  exact List.append_assoc _ _ _

/-- The lines of what is scanned count the newlines. -/
theorem linesFrom_streamAt (p : Place) (cs : List Char) : (streamAt p cs).LinesFrom p.line := by
  match cs with
  | [] => exact ⟨rfl, trivial⟩
  | c :: cs =>
    have hrest := linesFrom_streamAt (p.afterAll (c :: cs.take (shape c cs).2))
      (cs.drop (shape c cs).2)
    rw [line_afterAll_shape] at hrest
    rw [Stream.LinesFrom, toList_streamAt_cons]
    cases hshape : (shape c cs).1 with
    | gap =>
      rw [hshape, if_neg (by simp)] at hrest
      exact hrest
    | token kind =>
      refine ⟨rfl, ?_⟩
      by_cases hk : kind = .newline
      · rw [hshape, hk, if_pos rfl] at hrest
        rw [hk]
        exact hrest
      · rw [hshape, if_neg fun h => hk (Shape.token.inj h)] at hrest
        rw [if_neg (by simpa [Parser.isNewline] using hk)]
        exact hrest
    | error kind =>
      rw [hshape, if_neg (by simp)] at hrest
      exact ⟨rfl, hrest⟩
termination_by cs.length
decreasing_by simp only [List.length_cons, List.length_drop]; omega

end Scanner

theorem Stream.linesFrom_ofString (source : String) : (ofString source).LinesFrom 1 :=
  Scanner.linesFrom_streamAt Scanner.Place.start source.toList

/-! ## Taking tokens -/

namespace Stream

variable {line : Nat} {s rest : Stream} {t : Token}

theorem linesFrom_prepend_cons {u : Token} {us : List Token} :
    (rest.prepend (u :: us)).LinesFrom line ↔ u.line = line ∧
      (rest.prepend us).LinesFrom (if u.kind = .newline then line + 1 else line) := by
  simp only [LinesFrom, toList_prepend, List.map_cons, List.cons_append, Item.LinesFrom,
    Parser.isNewline, beq_iff_eq]
  rfl

/-- Tokens other than newlines are all on the line. -/
theorem LinesFrom.of_prepend {us : List Token} (h : (rest.prepend us).LinesFrom line)
    (hus : ∀ u ∈ us, u.kind ≠ .newline) : (∀ u ∈ us, u.line = line) ∧ rest.LinesFrom line := by
  induction us with
  | nil => exact ⟨by simp, h⟩
  | cons u us ih =>
    obtain ⟨hline, hmore⟩ := linesFrom_prepend_cons.1 h
    rw [if_neg (hus u List.mem_cons_self)] at hmore
    obtain ⟨hlines, hrest⟩ := ih hmore fun v hv => hus v (List.mem_cons_of_mem _ hv)
    exact ⟨List.forall_mem_cons.2 ⟨hline, hlines⟩, hrest⟩

theorem LinesFrom.of_newlines {ns : List Token} (h : (rest.prepend ns).LinesFrom line)
    (hns : ∀ n ∈ ns, n.kind = .newline) : rest.LinesFrom (line + ns.length) := by
  induction ns generalizing line with
  | nil => exact h
  | cons n ns ih =>
    obtain ⟨-, hmore⟩ := linesFrom_prepend_cons.1 h
    rw [if_pos (hns n List.mem_cons_self)] at hmore
    have := ih hmore fun m hm => hns m (List.mem_cons_of_mem _ hm)
    rwa [Nat.add_right_comm] at this

theorem LinesFrom.dropNewlines (h : s.LinesFrom line) :
    ∃ later, line ≤ later ∧ s.dropNewlines.LinesFrom later := by
  obtain ⟨ns, hns, heq, -⟩ := s.exists_newlines
  rw [heq] at h
  exact ⟨_, Nat.le_add_right _ _, h.of_newlines hns⟩

theorem LinesFrom.of_head (h : s.LinesFrom line) (hhead : s.head = .token t)
    (hend : t.kind ≠ .endOfFile) (hnewline : t.kind ≠ .newline) :
    t.line = line ∧ s.tail.LinesFrom line := by
  rw [eq_prepend_of_head hhead hend, linesFrom_prepend_cons, if_neg hnewline] at h
  exact h

theorem LinesFrom.of_newline (h : s.LinesFrom line) (hhead : s.head = .token t)
    (hnewline : t.kind = .newline) : s.tail.LinesFrom (line + 1) := by
  rw [eq_prepend_of_head hhead (by simp [hnewline]), linesFrom_prepend_cons,
    if_pos hnewline] at h
  exact h.2

/-- What comes next is behind the line, if it is not the end of the file. -/
def StartsBehind (line : Nat) (s : Stream) : Prop :=
  (∃ later, line < later ∧ s.LinesFrom later) ∨ ∃ t, s.head = .token t ∧ t.kind = .endOfFile

theorem StartsBehind.weaken {earlier : Nat} (h : s.StartsBehind line) (hle : earlier ≤ line) :
    s.StartsBehind earlier :=
  h.imp_left fun ⟨later, hlt, hlines⟩ => ⟨later, Nat.lt_of_le_of_lt hle hlt, hlines⟩

theorem StartsBehind.dropNewlines (h : s.StartsBehind line) : s.dropNewlines.StartsBehind line := by
  rcases h with ⟨later, hlt, hlines⟩ | ⟨t, hhead, hend⟩
  · obtain ⟨last, hle, hlast⟩ := hlines.dropNewlines
    exact .inl ⟨last, by omega, hlast⟩
  · rw [dropNewlines_of_head hhead (by simp [hend])]
    exact .inr ⟨t, hhead, hend⟩

theorem StartsBehind.linesFrom (h : s.StartsBehind line) (hhead : s.head = .token t)
    (hend : t.kind ≠ .endOfFile) : ∃ later, line < later ∧ s.LinesFrom later := by
  rcases h with hlines | ⟨u, hu, huend⟩
  · exact hlines
  · rw [hhead] at hu
    cases hu
    exact absurd huend hend

end Stream

/-- Symbols are on the lines of the tokens that spell them. -/
theorem Spelled.lines_eq {us : List Token} {xs : List Symbol} {line : Nat} (h : Spelled us xs)
    (hus : ∀ u ∈ us, u.line = line) : ∀ k ∈ xs.filterMap Symbol.line?, k = line := by
  induction h with
  | nil => simp
  | @cons u x us xs hux _ ih =>
    obtain ⟨hline, hlines⟩ := List.forall_mem_cons.1 hus
    intro k hk
    rw [List.filterMap_cons] at hk
    cases x with
    | literal l m =>
      rcases List.mem_cons.1 hk with rfl | hk
      · exact hux.2.2.symm.trans hline
      · exact ih hlines k hk
    | name text m =>
      rcases List.mem_cons.1 hk with rfl | hk
      · exact hux.2.2.symm.trans hline
      · exact ih hlines k hk
    | key text => exact ih hlines k hk
    | sign kind => exact ih hlines k hk

namespace Parser

variable {line : Nat} {s rest : Stream}

/-- A tree is read on one line. -/
theorem treeAt_lines {power : Nat} {t : Tree} (hs : s.LinesFrom line)
    (h : treeAt power s = .ok t rest) : (∀ k ∈ t.lines, k = line) ∧ rest.LinesFrom line := by
  obtain ⟨⟨us, rfl, hus⟩, -⟩ := treeAt_sound h
  obtain ⟨hlines, hrest⟩ := hs.of_prepend hus.kind_ne_newline
  exact ⟨hus.lines_eq hlines, hrest⟩

/-- Arguments are read on one line. -/
theorem commandArguments_lines {a b : Arguments} {line : Nat} {s rest : Stream}
    (hs : s.LinesFrom line) (h : commandArguments a s = .ok b rest) : rest.LinesFrom line := by
  rcases commandArguments_eq_ok h with ⟨-, rfl, -⟩ | ⟨us, key, v, mid, -, rfl, hread, -, -, hmore⟩
  · exact hs
  · have hlt := hread.length_lt mid
    have hus : ∀ u ∈ us, u.kind ≠ .newline := by
      have hvalue : v.kind.token ≠ .newline := by cases v.kind <;> simp [LiteralKind.token]
      cases hread with
      | plain hk htext => simpa [hk] using hvalue
      | keyed hword hcolon hk htext => simpa [hword, hcolon, hk] using hvalue
    exact commandArguments_lines (hs.of_prepend hus).2 hmore
termination_by s.items.length

/-- What ends a statement ends its line. -/
theorem terminator_behind (hs : s.LinesFrom line) (h : terminator s = .ok () rest) :
    rest.StartsBehind line := by
  obtain ⟨t, hhead, ⟨hk, rfl⟩ | ⟨hk, rfl⟩⟩ := terminator_eq_ok.1 h
  · exact .inl ⟨line + 1, Nat.lt_succ_self line, hs.of_newline hhead hk⟩
  · exact .inr ⟨t, hhead, hk⟩

/-- A jump may be on a later line, and ends it. -/
theorem jump_behind {label : Option String} (hs : s.StartsBehind line)
    (h : jump s = .ok label rest) : rest.StartsBehind line := by
  obtain ⟨-, -, -, -, rfl⟩ | ⟨arrow, word, harrow, harrowk, hword, hwordk, hend, -⟩ :=
    jump_eq_ok.1 h
  · exact hs
  · obtain ⟨later, hlt, hlines⟩ := hs.linesFrom harrow (by simp [harrowk])
    have hlabel := (hlines.of_head harrow (by simp [harrowk]) (by simp [harrowk])).2
    have hbehind := (hlabel.of_head hword (by simp [hwordk]) (by simp [hwordk])).2
    exact (terminator_behind hbehind hend).weaken hlt.le

/-- A statement starts on the line on which it is read, and what is left is behind its last line. -/
theorem statement_lined {line : Nat} {s rest : Stream} {st : Statement} (hs : s.LinesFrom line)
    (h : statement s = .ok st rest) :
    st.line = line ∧ st.Lined ∧ rest.StartsBehind st.innermost.line := by
  cases statement_eq_ok.1 h with
  | @dialogue t hhead hk hend =>
    obtain ⟨hline, htail⟩ := hs.of_head hhead (by simp [hk]) (by simp [hk])
    exact ⟨hline, trivial, hline ▸ terminator_behind htail hend⟩
  | @command t a mid hhead hk ha hend =>
    obtain ⟨hline, htail⟩ := hs.of_head hhead (by simp [hk]) (by simp [hk])
    exact ⟨hline, trivial, hline ▸ terminator_behind (commandArguments_lines htail ha) hend⟩
  | @conditional t c behind start done last body label hhead hk hc hstart hbody hlast hlabel =>
    obtain ⟨-, rfl⟩ := skipNewlines_eq_ok.1 hstart
    obtain ⟨-, rfl⟩ := skipNewlines_eq_ok.1 hlast
    have hlt := Stream.length_tail_of_head hhead (by simp [hk])
    have hlt' := Parsers.advance_whole.tree _ _ c behind hc
    have hle := behind.length_dropNewlines_le
    obtain ⟨hline, htail⟩ := hs.of_head hhead (by simp [hk]) (by simp [hk])
    obtain ⟨hlines, hbehind⟩ := treeAt_lines htail hc
    -- the condition ends on the line of the guard, and newlines before the body only go forward
    obtain ⟨later, hlater, hstart'⟩ := hbehind.dropNewlines
    obtain ⟨hbodyline, hlined, hdone⟩ := statement_lined hstart' hbody
    refine ⟨hline, ⟨⟨c, rfl, hline ▸ hlines⟩, ?_, hlined⟩, jump_behind hdone.dropNewlines hlabel⟩
    rw [hline, hbodyline]
    exact hlater
termination_by s.items.length

theorem statements_of_end {t : Token} (hhead : s.head = .token t) (hend : t.kind = .endOfFile) :
    statements s = .ok [] s :=
  statements_eq_ok.2 ⟨t, hhead, .inr (.inl ⟨hend, rfl, rfl⟩)⟩

/-- The statements of a script come line after line. -/
theorem statements_lined {line : Nat} {s rest : Stream} {sts : List Statement}
    (hs : s.LinesFrom line) (h : statements s = .ok sts rest) :
    (∀ st ∈ sts, line ≤ st.line ∧ st.Lined) ∧
      sts.Pairwise fun st later => st.innermost.line < later.line := by
  obtain ⟨t, hhead, ⟨hk, htail⟩ | ⟨hk, rfl, rfl⟩ | ⟨-, -, st, mid, more, hst, hmore, rfl⟩⟩ :=
    statements_eq_ok.1 h
  · have hlt := Stream.length_tail_of_head hhead (by simp [hk])
    obtain ⟨hlined, hsorted⟩ := statements_lined (hs.of_newline hhead hk) htail
    exact ⟨fun st hst => ⟨Nat.le_of_succ_le (hlined st hst).1, (hlined st hst).2⟩, hsorted⟩
  · exact ⟨by simp, .nil⟩
  · have hlt := Parsers.advance_whole.statement _ st mid hst
    obtain ⟨rfl, hlined, ⟨later, hlater, hmid⟩ | ⟨n, hn, hend⟩⟩ := statement_lined hs hst
    · obtain ⟨hlines, hsorted⟩ := statements_lined hmid hmore
      refine ⟨List.forall_mem_cons.2 ⟨⟨Nat.le_refl _, hlined⟩, fun other hother => ?_⟩,
        .cons (fun other hother => Nat.lt_of_lt_of_le hlater (hlines other hother).1) hsorted⟩
      obtain ⟨hle, hother⟩ := hlines other hother
      have := hlined.line_le
      exact ⟨by omega, hother⟩
    · -- no statement is read at the end of the file, where nothing is known of the line
      rw [statements_of_end hn hend] at hmore
      obtain ⟨rfl, -⟩ := Reply.ok.inj hmore
      exact ⟨by simpa using hlined, List.pairwise_singleton _ _⟩
termination_by s.items.length

end Parser

/-! ## Lines of nodes -/

def Node.line? : Node → Option Nat
  | atom _ line | call _ _ line => some line
  | group _ | comparison _ _ _ | connective _ _ _ => none

/-- A layout adds nodes on the lines of the tree only. -/
theorem line_mem_lines_layOut :
    (∀ (t : Tree) (nodes : Array Node), ∀ n ∈ t.layOut nodes,
        n ∈ nodes ∨ ∀ k, n.line? = some k → k ∈ t.lines) ∧
      ∀ (a : TreeArguments) (nodes : Array Node), ∀ n ∈ (a.layOut nodes).1,
        n ∈ nodes ∨ ∀ k, n.line? = some k → k ∈ a.lines := by
  refine Tree.induct ?_ ?_ ?_ ?_ ?_ ?_
  · intro l line nodes n hn
    rcases Array.mem_push.1 hn with hn | rfl
    · exact .inl hn
    · exact .inr (by simp [Node.line?])
  · intro inner ih nodes n hn
    rw [Tree.lines_group]
    rcases Array.mem_push.1 hn with hn | rfl
    · exact ih nodes n hn
    · exact .inr (by simp [Node.line?])
  · intro o lhs rhs ihl ihr nodes n hn
    rw [Tree.lines_join]
    rw [Tree.layOut_join] at hn
    rcases Array.mem_push.1 hn with hn | rfl
    · rcases ihr _ n hn with hn | hlines
      · exact (ihl nodes n hn).imp_right fun h k hk => List.mem_append_left _ (h k hk)
      · exact .inr fun k hk => List.mem_append_right _ (hlines k hk)
    · exact .inr (by cases o <;> simp [Operator.node, Node.line?])
  · intro name arguments line ih nodes n hn
    rw [Tree.lines_call]
    rcases Array.mem_push.1 hn with hn | rfl
    · exact (ih nodes n hn).imp_right fun h k hk => List.mem_cons_of_mem _ (h k hk)
    · exact .inr (by simp [Node.line?])
  · intro nodes n hn
    exact .inl hn
  · intro key value rest ihv ihr nodes n hn
    rw [TreeArguments.lines_cons]
    rcases ihr _ n hn with hn | hlines
    · exact (ihv nodes n hn).imp_right fun h k hk => List.mem_append_left _ (h k hk)
    · exact .inr fun k hk => List.mem_append_right _ (hlines k hk)

namespace Expression

variable {line : Nat}

/-- Nodes that refer back have a line, and if all atoms and calls are on one line, it is that. -/
theorem lineWithin_of_refersBack {e : Expression} (hback : RefersBack e.nodes)
    (hlines : ∀ n ∈ e.nodes, ∀ k, n.line? = some k → k = line) {fuel i : Nat}
    (hi : i < e.nodes.size) (hfuel : i < fuel) : e.lineWithin fuel i = some line := by
  induction fuel generalizing i with
  | zero => exact absurd hfuel (Nat.not_lt_zero i)
  | succ fuel ih =>
    obtain ⟨n, hn⟩ : ∃ n, e.nodes[i]? = some n := ⟨_, Array.getElem?_eq_getElem hi⟩
    have hline := hlines n (Array.mem_of_getElem? hn)
    have hfirst : ∀ j ∈ n.references, e.lineWithin fuel j = some line := by
      intro j hj
      have := hback i n hn j hj
      exact ih (by omega) (by omega)
    rw [lineWithin, hn]
    cases n with
    | atom l k => exact congrArg some (hline k rfl)
    | group inner => exact hfirst inner (by simp [Node.references])
    | comparison c lhs rhs => exact hfirst lhs (by simp [Node.references])
    | connective c lhs rhs => exact hfirst lhs (by simp [Node.references])
    | call name arguments k => exact congrArg some (hline k rfl)

/-- All nodes of a tree on one line have that line. -/
theorem lineAt?_ofTree {t : Tree} (ht : ∀ k ∈ t.lines, k = line) {i : Nat}
    (hi : i < (ofTree t).nodes.size) : (ofTree t).lineAt? i = some line := by
  refine lineWithin_of_refersBack (refersBack_layOut.1 t #[] (by simp [RefersBack])) ?_ hi hi
  intro n hn k hk
  rcases line_mem_lines_layOut.1 t #[] n hn with hnone | hlines
  · simp at hnone
  · exact ht k (hlines k hk)

end Expression

/-! ## Scripts -/

/-- Every node of a condition has the line of its guard, and what is guarded is not before it. -/
def Statement.InOrder : Statement → Prop
  | dialogue _ _ | command _ _ _ => True
  | conditional condition body _ line =>
    (∀ i < condition.nodes.size, condition.lineAt? i = some line) ∧
      line ≤ body.line ∧ body.InOrder

theorem Statement.Lined.inOrder {s : Statement} (h : s.Lined) : s.InOrder := by
  induction s with
  | dialogue | command => trivial
  | conditional condition body jump line ih =>
    obtain ⟨⟨t, rfl, ht⟩, hle, hbody⟩ := h
    exact ⟨fun i hi => Expression.lineAt?_ofTree ht hi, hle, ih hbody⟩

/-- Every statement of a script is read off lines of its own, behind those of the one before. -/
theorem Program.lined_of_parse {source : String} {p : Program} (h : Program.parse source = .ok p) :
    (∀ s ∈ p.statements, s.Lined) ∧
      p.statements.Pairwise fun s later => s.innermost.line < later.line := by
  obtain ⟨rest, hrun⟩ := Program.parse_eq_ok.1 h
  obtain ⟨hlined, hsorted⟩ :=
    Parser.statements_lined (Stream.linesFrom_ofString source) hrun
  exact ⟨fun s hs => (hlined s hs).2, hsorted⟩

end StageScript
