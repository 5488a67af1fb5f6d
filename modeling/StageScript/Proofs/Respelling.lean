import StageScript.Proofs.Lines

set_option autoImplicit false

/-! # Syntax in another spelling

`respell` puts other texts in the place of those of numbers and strings, and leaves words, names,
keys and labels alone. It commutes with laying out, as `mapLines` does. -/

namespace StageScript

/-! ## Other texts -/

def Literal.respell (f : String → String) (l : Literal) : Literal :=
  match l.kind with
  | .number | .string => ⟨l.kind, f l.text⟩
  | .word => l

mutual

def Tree.respell (f : String → String) : Tree → Tree
  | .atom l line => .atom (l.respell f) line
  | .group inner => .group (inner.respell f)
  | .comparison c lhs rhs => .comparison c (lhs.respell f) (rhs.respell f)
  | .connective c lhs rhs => .connective c (lhs.respell f) (rhs.respell f)
  | .call name arguments line => .call name (arguments.respell f) line

def TreeArguments.respell (f : String → String) : TreeArguments → TreeArguments
  | .nil => .nil
  | .cons key value rest => .cons key (value.respell f) (rest.respell f)

end

def Node.respell (f : String → String) : Node → Node
  | .atom l line => .atom (l.respell f) line
  | node => node

/-- The same nodes and the same root. -/
def Expression.respell (f : String → String) (e : Expression) : Expression :=
  ⟨e.nodes.map (Node.respell f), e.root, by simpa using e.root_lt⟩

/-- The same keys. -/
def Arguments.respell (f : String → String) (a : Arguments) : Arguments :=
  ⟨a.entries.map fun entry => (entry.1, entry.2.respell f)⟩

def Statement.respell (f : String → String) : Statement → Statement
  | .dialogue text line => .dialogue (f text) line
  | .command name arguments line => .command name (arguments.respell f) line
  | .conditional condition body jump line =>
    .conditional (condition.respell f) (body.respell f) jump line

def Program.respell (f : String → String) (p : Program) : Program :=
  ⟨p.statements.map (Statement.respell f)⟩

section

variable (f : String → String)

/-! ## Expressions -/

theorem Tree.respell_join (o : Operator) (lhs rhs : Tree) :
    (o.join lhs rhs).respell f = o.join (lhs.respell f) (rhs.respell f) := by
  cases o <;> rfl

theorem layOut_respell :
    (∀ (t : Tree) (nodes : Array Node), (t.respell f).layOut (nodes.map (Node.respell f)) =
        (t.layOut nodes).map (Node.respell f)) ∧
      ∀ (a : TreeArguments) (nodes : Array Node),
        (a.respell f).layOut (nodes.map (Node.respell f)) =
          ((a.layOut nodes).1.map (Node.respell f), (a.layOut nodes).2) := by
  refine Tree.induct ?_ ?_ ?_ ?_ ?_ ?_
  · intro l line nodes
    simp [Tree.respell, Tree.layOut, Node.respell]
  · intro inner ih nodes
    simp [Tree.respell, Tree.layOut, ih, Node.respell]
  · intro o lhs rhs ihl ihr nodes
    have hnode : ∀ left right : Nat, (o.node left right).respell f = o.node left right := by
      intro left right
      cases o <;> rfl
    simp [Tree.respell_join, Tree.layOut_join, ihl, ihr, hnode]
  · intro name arguments line ih nodes
    simp [Tree.respell, Tree.layOut, ih, Node.respell]
  · intro nodes
    rfl
  · intro key value rest ihv ihr nodes
    simp [TreeArguments.respell, TreeArguments.layOut, ihv, ihr]

theorem Expression.ofTree_respell (t : Tree) : ofTree (t.respell f) = (ofTree t).respell f := by
  have h := (layOut_respell f).1 t #[]
  rw [Array.map_empty] at h
  simp [ofTree, respell, h]

/-! ## Arguments -/

/-- A key keeps its place. -/
theorem Arguments.insert_respell (a : Arguments) (key : String) (l : Literal) :
    (a.respell f).insert key (l.respell f) = (a.insert key l).respell f := by
  obtain ⟨entries⟩ := a
  simp only [insert, respell, mk.injEq]
  induction entries with
  | nil => rfl
  | cons entry rest ih =>
    obtain ⟨k, v⟩ := entry
    by_cases hk : k = key
    · simp [insertEntry, hk]
    · simp [insertEntry, hk, ih]

end

/-! ## The same texts -/

theorem Literal.respell_id (l : Literal) : l.respell id = l := by
  obtain ⟨kind, text⟩ := l
  cases kind <;> rfl

theorem Expression.respell_id (e : Expression) : e.respell id = e := by
  have h : Node.respell id = id := by
    funext n
    cases n with
    | atom l line => rw [Node.respell, Literal.respell_id, id]
    | group | comparison | connective | call => rfl
  simp [respell, h]

theorem Arguments.respell_id (a : Arguments) : a.respell id = a := by
  simp [respell, Literal.respell_id]

theorem Statement.respell_id (st : Statement) : st.respell id = st := by
  induction st with
  | dialogue text line => rfl
  | command name arguments line => rw [respell, Arguments.respell_id]
  | conditional condition body jump line ih => rw [respell, Expression.respell_id, ih]

end StageScript
