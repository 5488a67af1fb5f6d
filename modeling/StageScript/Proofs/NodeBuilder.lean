import StageScript.Proofs.NodeOrder
import StageScript.Proofs.Precedence
import StageScript.Proofs.Remainder
import StageScript.Proofs.Tiling

set_option autoImplicit false

/-! # Building nodes while reading

The parser of expressions makes a tree and lays it out. `Parser.built` puts the nodes into one list
as soon as they are read, and has them refer to each other by words of thirty-two bits that are
counted off the length of the list. Both come to the same: the words never wrap, since every node is
paid for by an item of its own (`Parser.built_eq`). Main statement: `Stream.arranged`, the shape of
every expression that is read off a script. -/

namespace StageScript

namespace Parser

/-! ## Builders -/

/-- A reader of items that puts nodes behind the given ones. -/
abbrev Builder (α : Type) : Type := StateT (Array Node) Parser α

/-- Puts a node behind the others and refers to it. -/
def push (n : Node) : Builder UInt32 := fun nodes =>
  return ((nodes.push n).size.toUInt32 - 1, nodes.push n)

mutual

/-- An expression of operators that hold their left operand at least as tightly as `power`. -/
def nodeWithin : Nat → Nat → Builder UInt32
  | 0, _ => (exhausted : Parser UInt32)
  | bound + 1, power => do
    let lhs ← operandNodeWithin bound
    operatorNodesWithin bound power lhs

/-- An operand: a literal, a call or a group. -/
def operandNodeWithin : Nat → Builder UInt32
  | 0 => (exhausted : Parser UInt32)
  | bound + 1 => do
    let t ← next
    match t.kind with
    | .number => push (.atom (.number t.text) t.line)
    | .string => push (.atom (.string t.text) t.line)
    | .identifier => wordNodeWithin bound t
    | .leftParen =>
      let inner ← nodeWithin bound 0
      let _ ← expect .rightParen
      push (.group inner.toNat)
    | .endOfFile => (fail .unexpectedEnd t : Parser UInt32)
    | actual => (fail (.notAnExpression actual) t : Parser UInt32)

/-- The operand that starts with a word: a call if a parenthesis follows, which is put behind its
    arguments, else the word itself. -/
def wordNodeWithin : Nat → Token → Builder UInt32
  | 0, _ => (exhausted : Parser UInt32)
  | bound + 1, word => do
    if ← eat .leftParen then
      let arguments ← argumentNodesWithin bound
      push (.call word.text arguments word.line)
    else push (.atom (.word word.text) word.line)

/-- The arguments of a call, up to and including the closing parenthesis. -/
def argumentNodesWithin : Nat → Builder (List NodeArgument)
  | 0 => (exhausted : Parser (List NodeArgument))
  | bound + 1 => do
    let t ← peek
    match t.kind with
    | .rightParen =>
      let _ ← next
      return []
    | .endOfFile => (fail .unexpectedEnd t : Parser (List NodeArgument))
    | .identifier =>
      let word ← next
      if ← eat .colon then
        let value ← nodeWithin bound 0
        let rest ← argumentNodesWithin bound
        return ⟨some word.text, value.toNat⟩ :: rest
      else
        let lhs ← wordNodeWithin bound word
        let value ← operatorNodesWithin bound 0 lhs
        let rest ← argumentNodesWithin bound
        return ⟨none, value.toNat⟩ :: rest
    | _ =>
      let value ← nodeWithin bound 0
      let rest ← argumentNodesWithin bound
      return ⟨none, value.toNat⟩ :: rest

/-- The operators that hold the node `lhs` at least as tightly as `power`, with their right
    operands. -/
def operatorNodesWithin : Nat → Nat → UInt32 → Builder UInt32
  | 0, _, _ => (exhausted : Parser UInt32)
  | bound + 1, power, lhs => do
    let t ← peek
    match Operator.ofToken? t.kind with
    | none => return lhs
    | some operator =>
      if operator.powers.1 < power then return lhs
      else
        let _ ← next
        let rhs ← nodeWithin bound operator.powers.2
        let joined ← push (operator.node lhs.toNat rhs.toNat)
        operatorNodesWithin bound power joined

end

/-- An expression, built node by node; none if its root were none of them. -/
def built : Parser (Option Expression) := fun s =>
  (do
    let (root, nodes) ← nodeWithin (enough s) 0 #[]
    return Expression.ofNodes? nodes root.toNat : Parser (Option Expression)) s

end Parser

/-! ## Replies that mirror each other -/

/-- The replies are the same but for values that belong together. -/
def Reply.Mirrors {α β : Type} (V : α → β → Stream → Prop) : Reply α → Reply β → Prop
  | .ok a rest, .ok b rest' => rest' = rest ∧ V a b rest
  | .error e rest, .error e' rest' => e' = e ∧ rest' = rest
  | .ok _ _, .error _ _ | .error _ _, .ok _ _ => False

theorem Reply.eq_of_mirrors {α : Type} {r r' : Reply α} (h : r.Mirrors (fun a b _ => b = a) r') :
    r' = r := by
  cases r with
  | ok a rest =>
    cases r' with
    | ok b rest' =>
      obtain ⟨rfl, rfl⟩ := h
      rfl
    | error e' rest' => exact h.elim
  | error e rest =>
    cases r' with
    | ok b rest' => exact h.elim
    | error e' rest' =>
      obtain ⟨rfl, rfl⟩ := h
      rfl

namespace Parser

theorem Builder.bind_apply {α β : Type} (x : Builder α) (f : α → Builder β) (nodes : Array Node) :
    (x >>= f) nodes = x nodes >>= fun built => f built.1 built.2 := rfl

/-- A step that puts no node anywhere. -/
theorem Builder.lift_bind {α β : Type} (p : Parser α) (f : α → Builder β) (nodes : Array Node) :
    ((liftM p : Builder α) >>= f) nodes = p >>= fun a => f a nodes := by
  funext s
  change ((p >>= fun a => (pure (a, nodes) : Parser (α × Array Node))) >>=
    fun built => f built.1 built.2) s = _
  rw [bind_assoc]
  rfl

section Mirrors

variable {α β γ δ : Type} {V : α → β → Stream → Prop} {W : γ → δ → Stream → Prop} {s : Stream}

theorem mirrors_bind {p : Parser α} {p' : Parser β} {f : α → Parser γ} {f' : β → Parser δ}
    (hp : (p s).Mirrors V (p' s))
    (hf : ∀ a b rest, p s = .ok a rest → V a b rest → (f a rest).Mirrors W (f' b rest)) :
    ((p >>= f) s).Mirrors W ((p' >>= f') s) := by
  rw [bind_apply, bind_apply]
  cases h : p s with
  | ok a rest =>
    cases h' : p' s with
    | ok b rest' =>
      rw [h, h'] at hp
      obtain ⟨rfl, hab⟩ := hp
      exact hf a b rest' h hab
    | error e' rest' =>
      rw [h, h'] at hp
      exact hp.elim
  | error e rest =>
    cases h' : p' s with
    | ok b rest' =>
      rw [h, h'] at hp
      exact hp.elim
    | error e' rest' =>
      rw [h, h'] at hp
      exact hp

/-- The same step on both sides. -/
theorem mirrors_same {p : Parser α} {f : α → Parser γ} {f' : α → Parser δ}
    (h : ∀ a rest, p s = .ok a rest → (f a rest).Mirrors W (f' a rest)) :
    ((p >>= f) s).Mirrors W ((p >>= f') s) := by
  refine mirrors_bind (V := fun a b _ => b = a) ?_ fun a b rest ha hab => hab ▸ h a rest ha
  cases p s <;> exact ⟨rfl, rfl⟩

end Mirrors

/-- The tree is laid out behind the given nodes, the reference is to its root, and the nodes do not
    outnumber the items that are gone. -/
structure Laid (nodes : Array Node) (budget : Nat) (t : Tree) (built : UInt32 × Array Node)
    (rest : Stream) : Prop where
  nodes_eq : built.2 = t.layOut nodes
  reference : built.1.toNat = (t.layOut nodes).size - 1
  size_le : (t.layOut nodes).size + rest.items.length ≤ budget

/-- The same of arguments. -/
structure ArgumentsLaid (nodes : Array Node) (budget : Nat) (a : TreeArguments)
    (built : List NodeArgument × Array Node) (rest : Stream) : Prop where
  nodes_eq : built.2 = (a.layOut nodes).1
  references : built.1 = (a.layOut nodes).2
  size_le : (a.layOut nodes).1.size + rest.items.length ≤ budget

/-- Below the word size a node is found where it was put. -/
theorem mirrors_push {t : Tree} {n : Node} {nodes before : Array Node} {budget : Nat} {s : Stream}
    (small : budget < 4294967296) (ht : t.layOut nodes = before.push n)
    (hsize : before.size + 1 + s.items.length ≤ budget) :
    ((pure t : Parser Tree) s).Mirrors (Laid nodes budget) (push n before s) := by
  refine ⟨rfl, ht.symm, ?_, ?_⟩
  · rw [ht, Array.size_push]
    have hword : (before.size + 1).toUInt32.toNat = before.size + 1 := Nat.mod_eq_of_lt (by omega)
    have hone : (1 : UInt32).toNat = 1 := rfl
    change ((before.size + 1).toUInt32 - 1).toNat = _
    rw [UInt32.toNat_sub, hword, hone]
    omega
  · rw [ht, Array.size_push]
    exact hsize

/-- How the parsers with a bound and the builders with that bound belong together. -/
structure Mirrored (bound : Nat) : Prop where
  tree : ∀ {power nodes s budget}, budget < 4294967296 → nodes.size + s.items.length ≤ budget →
    (expressionWithin bound power s).Mirrors (Laid nodes budget) (nodeWithin bound power nodes s)
  operand : ∀ {nodes s budget}, budget < 4294967296 → nodes.size + s.items.length ≤ budget →
    (operandWithin bound s).Mirrors (Laid nodes budget) (operandNodeWithin bound nodes s)
  word : ∀ {w nodes s budget}, budget < 4294967296 → nodes.size + 1 + s.items.length ≤ budget →
    (wordWithin bound w s).Mirrors (Laid nodes budget) (wordNodeWithin bound w nodes s)
  arguments : ∀ {nodes s budget}, budget < 4294967296 → nodes.size + s.items.length ≤ budget →
    (argumentsWithin bound s).Mirrors (ArgumentsLaid nodes budget)
      (argumentNodesWithin bound nodes s)
  operators : ∀ {power lhs reference nodes s budget}, budget < 4294967296 →
    Laid nodes budget lhs (reference, lhs.layOut nodes) s →
    (operatorsWithin bound power lhs s).Mirrors (Laid nodes budget)
      (operatorNodesWithin bound power reference (lhs.layOut nodes) s)

namespace Mirrored

theorem zero : Mirrored 0 where
  tree _ _ := ⟨rfl, rfl⟩
  operand _ _ := ⟨rfl, rfl⟩
  word _ _ := ⟨rfl, rfl⟩
  arguments _ _ := ⟨rfl, rfl⟩
  operators _ _ := ⟨rfl, rfl⟩

variable {bound power budget : Nat} {nodes : Array Node} {s : Stream} (h : Mirrored bound)

include h

theorem tree_succ (small : budget < 4294967296) (hs : nodes.size + s.items.length ≤ budget) :
    (expressionWithin (bound + 1) power s).Mirrors (Laid nodes budget)
      (nodeWithin (bound + 1) power nodes s) := by
  rw [expressionWithin, nodeWithin, Builder.bind_apply]
  refine mirrors_bind (h.operand small hs) fun lhs built rest _ hlaid => ?_
  obtain ⟨reference, laid⟩ := built
  obtain rfl : laid = lhs.layOut nodes := hlaid.nodes_eq
  exact h.operators small hlaid

theorem operand_succ (small : budget < 4294967296) (hs : nodes.size + s.items.length ≤ budget) :
    (operandWithin (bound + 1) s).Mirrors (Laid nodes budget)
      (operandNodeWithin (bound + 1) nodes s) := by
  rw [operandWithin, operandNodeWithin, Builder.lift_bind]
  refine mirrors_same fun t rest ht => ?_
  obtain ⟨hhead, rfl⟩ := next_eq_ok.1 ht
  cases hk : t.kind
  case number =>
    have := Stream.length_tail_of_head hhead (by simp [hk])
    exact mirrors_push small rfl (by omega)
  case string =>
    have := Stream.length_tail_of_head hhead (by simp [hk])
    exact mirrors_push small rfl (by omega)
  case identifier =>
    have := Stream.length_tail_of_head hhead (by simp [hk])
    exact h.word small (by omega)
  case leftParen =>
    have hlt := Stream.length_tail_of_head hhead (by simp [hk])
    -- the opening parenthesis pays for the group
    have hbudget : nodes.size + s.tail.items.length ≤ budget - 1 := by omega
    dsimp only
    rw [Builder.bind_apply]
    refine mirrors_bind (h.tree (by omega) hbudget) ?_
    intro inner built rest _ hlaid
    rw [Builder.lift_bind]
    refine mirrors_same fun u last hu => ?_
    have hle := Consumes.expect _ _ _ _ hu
    refine mirrors_push small ?_ ?_
    · rw [hlaid.nodes_eq, hlaid.reference]
      rfl
    · have := hlaid.size_le
      rw [hlaid.nodes_eq]
      omega
  all_goals exact ⟨rfl, rfl⟩

theorem word_succ {w : Token} (small : budget < 4294967296)
    (hs : nodes.size + 1 + s.items.length ≤ budget) :
    (wordWithin (bound + 1) w s).Mirrors (Laid nodes budget)
      (wordNodeWithin (bound + 1) w nodes s) := by
  rw [wordWithin, wordNodeWithin, Builder.lift_bind]
  refine mirrors_same fun taken rest ht => ?_
  have hle := Consumes.eat _ _ _ _ ht
  cases taken with
  | false => exact mirrors_push small rfl (by omega)
  | true =>
    have hbudget : nodes.size + rest.items.length ≤ budget - 1 := by omega
    refine mirrors_bind (h.arguments (by omega) hbudget) ?_
    intro a built last _ hlaid
    refine mirrors_push small ?_ ?_
    · rw [hlaid.nodes_eq, hlaid.references]
      rfl
    · have := hlaid.size_le
      rw [hlaid.nodes_eq]
      omega

theorem argument_succ {p : Parser Tree} {p' : Builder UInt32} {before : Array Node}
    {key : Option String} (small : budget < 4294967296)
    (hp : (p s).Mirrors (Laid nodes budget) (p' before s)) :
    ((do
      let value ← p
      let rest ← argumentsWithin bound
      return TreeArguments.cons key value rest : Parser TreeArguments) s).Mirrors
      (ArgumentsLaid nodes budget) ((do
        let value ← p'
        let rest ← argumentNodesWithin bound
        return ⟨key, value.toNat⟩ :: rest : Builder (List NodeArgument)) before s) := by
  rw [Builder.bind_apply]
  refine mirrors_bind hp fun value built mid _ hvalue => ?_
  rw [Builder.bind_apply, hvalue.nodes_eq]
  refine mirrors_bind (h.arguments small hvalue.size_le) fun others built' rest _ hothers => ?_
  refine ⟨rfl, hothers.nodes_eq, ?_, hothers.size_le⟩
  change (⟨key, built.1.toNat⟩ :: built'.1 : List NodeArgument) = _
  rw [hvalue.reference, hothers.references]
  rfl

theorem arguments_succ (small : budget < 4294967296) (hs : nodes.size + s.items.length ≤ budget) :
    (argumentsWithin (bound + 1) s).Mirrors (ArgumentsLaid nodes budget)
      (argumentNodesWithin (bound + 1) nodes s) := by
  rw [argumentsWithin, argumentNodesWithin, Builder.lift_bind]
  refine mirrors_same fun t rest ht => ?_
  obtain ⟨hhead, rfl⟩ := peek_eq_ok.1 ht
  cases hk : t.kind
  case endOfFile => exact ⟨rfl, rfl⟩
  case rightParen =>
    dsimp only
    rw [Builder.lift_bind]
    refine mirrors_same fun u last hu => ?_
    have hle := Consumes.next _ _ _ hu
    exact ⟨rfl, rfl, rfl, by simp only [TreeArguments.layOut]; omega⟩
  case identifier =>
    have hlt := Stream.length_tail_of_head hhead (by simp [hk])
    dsimp only
    rw [Builder.lift_bind]
    refine mirrors_same fun word last hword => ?_
    obtain ⟨-, rfl⟩ := next_eq_ok.1 hword
    rw [Builder.lift_bind]
    refine mirrors_same fun taken mid ht => ?_
    have hle := Consumes.eat _ _ _ _ ht
    cases taken with
    | true => exact h.argument_succ small (h.tree small (by omega))
    | false =>
      -- the word is the first operand of the argument
      change ((wordWithin bound word >>= fun lhs => _) mid).Mirrors _
        ((wordNodeWithin bound word >>= fun lhs => _) nodes mid)
      rw [Builder.bind_apply]
      refine mirrors_bind (h.word small (by omega)) fun lhs built rest _ hlaid => ?_
      obtain ⟨reference, laid⟩ := built
      obtain rfl : laid = lhs.layOut nodes := hlaid.nodes_eq
      exact h.argument_succ small (h.operators small hlaid)
  all_goals exact h.argument_succ small (h.tree small hs)

theorem operators_succ {lhs : Tree} {reference : UInt32} (small : budget < 4294967296)
    (hlhs : Laid nodes budget lhs (reference, lhs.layOut nodes) s) :
    (operatorsWithin (bound + 1) power lhs s).Mirrors (Laid nodes budget)
      (operatorNodesWithin (bound + 1) power reference (lhs.layOut nodes) s) := by
  rw [operatorsWithin, operatorNodesWithin, Builder.lift_bind]
  refine mirrors_same fun t rest ht => ?_
  obtain ⟨hhead, rfl⟩ := peek_eq_ok.1 ht
  cases ho : Operator.ofToken? t.kind with
  | none => exact ⟨rfl, hlhs⟩
  | some o =>
    have hk : t.kind ≠ .endOfFile := by
      intro hk
      rw [hk] at ho
      cases ho
    have hlt := Stream.length_tail_of_head hhead hk
    dsimp only
    split
    · exact ⟨rfl, hlhs⟩
    · rw [Builder.lift_bind]
      refine mirrors_same fun u last hu => ?_
      obtain ⟨-, rfl⟩ := next_eq_ok.1 hu
      have hsize := hlhs.size_le
      rw [Builder.bind_apply]
      -- the operator pays for its node
      have hbudget : (lhs.layOut nodes).size + rest.tail.items.length ≤ budget - 1 := by omega
      refine mirrors_bind (h.tree (by omega) hbudget) ?_
      intro rhs built mid _ hrhs
      have hsize' := hrhs.size_le
      have hnodes : (o.join lhs rhs).layOut nodes =
          built.2.push (o.node reference.toNat built.1.toNat) := by
        rw [Tree.layOut_join, hlhs.reference, hrhs.nodes_eq, hrhs.reference]
      obtain ⟨-, hjoined⟩ := mirrors_push (s := mid) small hnodes
        (by rw [hrhs.nodes_eq]; omega)
      rw [Builder.bind_apply, bind_of_ok (rfl : push _ built.2 mid = .ok _ mid)]
      dsimp only
      rw [← hnodes] at hjoined ⊢
      exact h.operators small hjoined

end Mirrored

theorem mirrored (bound : Nat) : Mirrored bound := by
  induction bound with
  | zero => exact .zero
  | succ bound ih =>
    exact ⟨ih.tree_succ, ih.operand_succ, ih.word_succ, ih.arguments_succ, ih.operators_succ⟩

/-- Building an expression node by node comes to the expression that is laid out when it has been
    read, and its root is always there. -/
theorem built_eq {s : Stream} (small : s.items.length < 4294967296) :
    built s = (do return some (← expression) : Parser (Option Expression)) s := by
  have hmirror : (expressionWithin (enough s) 0 s).Mirrors (Laid #[] s.items.length)
      (nodeWithin (enough s) 0 #[] s) := (mirrored (enough s)).tree small (by simp)
  have hread : (do return some (← expression) : Parser (Option Expression)) s =
      (expressionWithin (enough s) 0 >>= fun t => pure (some (.ofTree t))) s := by
    rw [bind_apply, bind_apply, expression, bind_apply]
    cases expressionWithin (enough s) 0 s <;> rfl
  rw [hread]
  refine Reply.eq_of_mirrors (mirrors_bind hmirror fun t built rest _ hlaid => ?_)
  obtain ⟨root, nodes⟩ := built
  obtain rfl : nodes = t.layOut #[] := hlaid.nodes_eq
  have hpos := t.size_layOut_pos #[]
  have hroot : root.toNat = (t.layOut #[]).size - 1 := hlaid.reference
  refine ⟨rfl, ?_⟩
  show Expression.ofNodes? (t.layOut #[]) root.toNat = some (.ofTree t)
  unfold Expression.ofNodes?
  rw [dif_pos (by omega)]
  simp only [hroot]
  rfl

end Parser

/-! ## Expressions of scripts -/

/-- The conditions of a statement and of the statements in it. -/
def Statement.conditions : Statement → List Expression
  | conditional condition body _ _ => condition :: body.conditions
  | dialogue .. | command .. => []

/-- The expression that is read off a stream is a list of nodes as it has to be. -/
structure Expression.Arranged (e : Expression) (s rest : Stream) : Prop where
  read : Parser.expression s = .ok e rest
  /-- The nodes are those that are put in while reading, with references that are words. -/
  built : Parser.built s = .ok (some e) rest
  order : e.PostOrder
  /-- There are no more nodes than tokens that were taken. -/
  size_le : ∃ taken t, s = rest.prepend taken ∧ e.tree? = some t ∧ Spelled taken t.yield ∧
    e.nodes.size ≤ taken.length
  size_lt : e.nodes.size < 4294967296
  /-- No node is missing, wherever a reader of nodes starts. -/
  found : ∀ i < e.nodes.size, ∃ t, e.Found i t

/-- Every expression that can be read off the stream, by itself or in a statement, is arranged. -/
structure Stream.Arranges (s : Stream) : Prop where
  expression : ∀ e rest, Parser.expression s = .ok e rest → e.Arranged s rest
  statement : ∀ st rest, Parser.statement s = .ok st rest → ∀ c ∈ st.conditions,
    ∃ start behind, start.IsRestOf s ∧ c.Arranged start behind
  program : ∀ p rest, Parser.program s = .ok p rest → ∀ st ∈ p.statements, ∀ c ∈ st.conditions,
    ∃ start behind, start.IsRestOf s ∧ c.Arranged start behind

namespace Parser

variable {s rest : Stream}

theorem arranged_of_expression (small : s.items.length < 4294967296) {e : Expression}
    (h : expression s = .ok e rest) : e.Arranged s rest := by
  have hread := h
  rw [expression_eq] at h
  obtain ⟨t, mid, ht, hmid⟩ := bind_eq_ok.1 h
  obtain ⟨rfl, rfl⟩ := pure_eq_ok.1 hmid
  obtain ⟨⟨taken, hs, htaken⟩, -⟩ := treeAt_sound ht
  have hsize : (Expression.ofTree t).nodes.size ≤ taken.length := by
    have hle := Expression.size_layOut_le.1 t #[]
    rw [htaken.length_eq]
    simpa [Expression.ofTree] using hle
  have hlength : taken.length ≤ s.items.length := by
    rw [hs, Stream.length_items_prepend]
    exact Nat.le_add_right _ _
  have horder := Expression.postOrder_ofTree t
  refine ⟨hread, ?_, horder, ⟨taken, t, hs, Expression.tree?_ofTree t, htaken, hsize⟩, by omega,
    fun i hi => horder.exists_found hi⟩
  rw [built_eq small, bind_of_ok hread]
  rfl

theorem arranged_of_statement (small : s.items.length < 4294967296) {st : Statement}
    (h : statement s = .ok st rest) :
    ∀ c ∈ st.conditions, ∃ start behind, start.IsRestOf s ∧ c.Arranged start behind := by
  induction st generalizing s rest with
  | dialogue | command => simp [Statement.conditions]
  | conditional condition body jump line ih =>
    cases statement_eq_ok.1 h with
    | @conditional _ tree behind start done _ _ _ hhead hk htree hstart hbody =>
      have htail : s.tail.IsRestOf s := .tail s
      have hbehind : behind.IsRestOf s :=
        htail.trans ((leaves_treeAt 0 _).isRestOf_of_ok htree)
      have hrest : start.IsRestOf s :=
        hbehind.trans ((leaves_skipNewlines _).isRestOf_of_ok hstart)
      have hcondition : expression s.tail = .ok (.ofTree tree) behind := by
        rw [expression_eq, bind_of_ok htree]
        rfl
      intro c hc
      rcases List.mem_cons.1 hc with rfl | hc
      · have hle := s.length_tail_le
        exact ⟨s.tail, behind, htail, arranged_of_expression (by omega) hcondition⟩
      · have hle := hrest.items_suffix.length_le
        obtain ⟨start', behind', hrest', harranged⟩ := ih (by omega) hbody c hc
        exact ⟨start', behind', hrest.trans hrest', harranged⟩

theorem arranged_of_statements {s rest : Stream} (small : s.items.length < 4294967296)
    {sts : List Statement} (h : statements s = .ok sts rest) :
    ∀ st ∈ sts, ∀ c ∈ st.conditions,
      ∃ start behind, start.IsRestOf s ∧ c.Arranged start behind := by
  obtain ⟨t, hhead, ⟨hk, htail⟩ | ⟨-, rfl, -⟩ | ⟨-, hk, first, mid, more, hfirst, hmore, rfl⟩⟩ :=
    statements_eq_ok.1 h
  · have hlt := Stream.length_tail_of_head hhead (by simp [hk])
    intro st hst c hc
    obtain ⟨start, behind, hrest, harranged⟩ :=
      arranged_of_statements (by omega) htail st hst c hc
    exact ⟨start, behind, Stream.IsRestOf.trans (.tail s) hrest, harranged⟩
  · simp
  · have hlt := Parsers.advance_whole.statement s first mid hfirst
    have hmid := (leaves_statement s).isRestOf_of_ok hfirst
    intro st hst c hc
    rcases List.mem_cons.1 hst with rfl | hst
    · exact arranged_of_statement small hfirst c hc
    · obtain ⟨start, behind, hrest, harranged⟩ :=
        arranged_of_statements (by omega) hmore st hst c hc
      exact ⟨start, behind, hmid.trans hrest, harranged⟩
termination_by s.items.length

end Parser

/-! ## Streams of scripts -/

/-- There are no more items than bytes. -/
theorem Stream.length_items_ofString_le (source : String) :
    (ofString source).items.length ≤ source.utf8ByteSize := by
  have hlength : ∀ cs : List Char, cs.length ≤ Text.byteCount cs := by
    intro cs
    induction cs with
    | nil => exact le_rfl
    | cons c cs ih =>
      have := c.utf8Size_pos
      rw [List.length_cons, Text.byteCount_cons]
      omega
  rw [← Text.byteCount_toList]
  exact (Scanner.tiles_itemsAt Scanner.Place.start source.toList).length_le.trans (hlength _)

/-- **The nodes of an expression stand in the order in which they are read.** Whatever has been
    asked of the parser of a script before, the expressions that it gives next, by themselves or as
    conditions, are lists of nodes in post-order, no longer than the tokens they were read from, in
    which every reference can be followed. -/
theorem Stream.arranged {source : String} (small : source.utf8ByteSize < 4294967296)
    (requests : List Request) : ((ofString source).after requests).Arranges := by
  have hitems := ((ofString source).isRestOf_after requests).items_suffix.length_le
  have hle := length_items_ofString_le source
  have hsmall : ((ofString source).after requests).items.length < 4294967296 := by omega
  refine ⟨fun e rest h => Parser.arranged_of_expression hsmall h,
    fun st rest h => Parser.arranged_of_statement hsmall h, fun p rest h => ?_⟩
  rw [Parser.program_eq] at h
  obtain ⟨sts, mid, hsts, hmid⟩ := Parser.bind_eq_ok.1 h
  obtain ⟨rfl, rfl⟩ := Parser.pure_eq_ok.1 hmid
  exact Parser.arranged_of_statements hsmall hsts

/-- A call with and without keys below operators of two levels and a group, behind a line that has
    been taken. -/
theorem Stream.arranged_nested :
    "命令 x\n（謎(鍵：１ a＜b c()) かつ 2）＜多数\n".utf8ByteSize < 4294967296 ∧
      ∃ e rest, Parser.expression ((ofString "命令 x\n（謎(鍵：１ a＜b c()) かつ 2）＜多数\n").after
          [.statement]) = .ok e rest ∧
        e.Arranged ((ofString "命令 x\n（謎(鍵：１ a＜b c()) かつ 2）＜多数\n").after [.statement])
          rest ∧ e.nodes.size = 11 := by
  have hsmall : "命令 x\n（謎(鍵：１ a＜b c()) かつ 2）＜多数\n".utf8ByteSize < 4294967296 := by
    decide +kernel
  have hsize : ((Parser.expression ((ofString "命令 x\n（謎(鍵：１ a＜b c()) かつ 2）＜多数\n").after
      [.statement])).result.toOption.map (·.nodes.size)) = some 11 := by decide +kernel
  cases h : Parser.expression ((ofString "命令 x\n（謎(鍵：１ a＜b c()) かつ 2）＜多数\n").after
      [.statement]) with
  | ok e rest =>
    rw [h] at hsize
    exact ⟨hsmall, e, rest, rfl, (arranged hsmall [.statement]).expression e rest h,
      Option.some.inj hsize⟩
  | error e rest =>
    rw [h] at hsize
    cases hsize

end StageScript
