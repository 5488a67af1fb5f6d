import StageScript.Proofs.Layout
import StageScript.Syntax.Statement

set_option autoImplicit false

/-! # Syntax up to lines

Syntax remembers the lines on which it was written. `mapLines` puts it on other lines and changes
nothing else; on expressions it commutes with laying out, and it changes neither the kinds nor the
levels that decide how a text is read. `withLine` puts everything on one line, so that two programs
are the same up to lines when they become equal. -/

namespace StageScript

/-! ## Other lines -/

mutual

def Tree.mapLines (f : Nat → Nat) : Tree → Tree
  | .atom l line => .atom l (f line)
  | .group inner => .group (inner.mapLines f)
  | .comparison c lhs rhs => .comparison c (lhs.mapLines f) (rhs.mapLines f)
  | .connective c lhs rhs => .connective c (lhs.mapLines f) (rhs.mapLines f)
  | .call name arguments line => .call name (arguments.mapLines f) (f line)

def TreeArguments.mapLines (f : Nat → Nat) : TreeArguments → TreeArguments
  | .nil => .nil
  | .cons key value rest => .cons key (value.mapLines f) (rest.mapLines f)

end

def Node.mapLines (f : Nat → Nat) : Node → Node
  | .atom l line => .atom l (f line)
  | .call name arguments line => .call name arguments (f line)
  | node => node

/-- The same nodes and the same root. -/
def Expression.mapLines (f : Nat → Nat) (e : Expression) : Expression :=
  ⟨e.nodes.map (Node.mapLines f), e.root, by simpa using e.root_lt⟩

def Statement.mapLines (f : Nat → Nat) : Statement → Statement
  | .dialogue text line => .dialogue text (f line)
  | .command name arguments line => .command name arguments (f line)
  | .conditional condition body jump line =>
    .conditional (condition.mapLines f) (body.mapLines f) jump (f line)

def Symbol.mapLines (f : Nat → Nat) : Symbol → Symbol
  | literal l line => literal l (f line)
  | name text line => name text (f line)
  | key text => key text
  | sign kind => sign kind

section

variable (f : Nat → Nat)

/-! ## Trees -/

theorem Tree.mapLines_join (o : Operator) (lhs rhs : Tree) :
    (o.join lhs rhs).mapLines f = o.join (lhs.mapLines f) (rhs.mapLines f) := by
  cases o <;> rfl

theorem Tree.level_mapLines (t : Tree) : (t.mapLines f).level = t.level := by
  cases t <;> rfl

/-- A tree keeps its leftmost atom or call. -/
theorem Tree.line_mapLines (t : Tree) : (t.mapLines f).line = f t.line := by
  refine (Tree.induct (P := fun t => (t.mapLines f).line = f t.line) (Q := fun _ => True)
    (fun _ _ => rfl) (fun _ ih => ih) (fun o lhs rhs ihl _ => ?_) (fun _ _ _ _ => rfl) trivial
    fun _ _ _ _ _ => trivial).1 t
  cases o <;> exact ihl

@[simp] theorem Symbol.kind_mapLines (x : Symbol) : (x.mapLines f).kind = x.kind := by
  cases x <;> rfl

theorem Symbol.isWord_mapLines (x : Symbol) : (x.mapLines f).IsWord ↔ x.IsWord := by
  cases x <;> rfl

theorem yield_mapLines :
    (∀ t : Tree, (t.mapLines f).yield = t.yield.map (Symbol.mapLines f)) ∧
      ∀ a : TreeArguments, (a.mapLines f).yield = a.yield.map (Symbol.mapLines f) := by
  refine Tree.induct ?_ ?_ ?_ ?_ ?_ ?_
  · intro l line
    rfl
  · intro inner ih
    simp [Tree.mapLines, Tree.yield, ih, Symbol.mapLines]
  · intro o lhs rhs ihl ihr
    simp [Tree.mapLines_join, Tree.yield_join, ihl, ihr, Symbol.mapLines]
  · intro name arguments line ih
    simp [Tree.mapLines, Tree.yield, ih, Symbol.mapLines]
  · rfl
  · intro key value rest ihv ihr
    cases key <;>
      simp [TreeArguments.mapLines, TreeArguments.yield, ihv, ihr, Symbol.ofKey, Symbol.mapLines]

theorem levelled_mapLines :
    (∀ t : Tree, t.Levelled → (t.mapLines f).Levelled) ∧
      ∀ a : TreeArguments, a.Levelled → (a.mapLines f).Levelled := by
  refine Tree.induct ?_ ?_ ?_ ?_ ?_ ?_
  · intro l line h
    exact h
  · intro inner ih h
    exact ih h
  · intro o lhs rhs ihl ihr h
    obtain ⟨hl, hr, hlevel, hlevel'⟩ := Tree.levelled_join.1 h
    rw [Tree.mapLines_join]
    refine Tree.levelled_join.2 ⟨ihl hl, ihr hr, ?_, ?_⟩
    · rwa [Tree.level_mapLines]
    · rwa [Tree.level_mapLines]
  · intro name arguments line ih h
    exact ih h
  · intro h
    exact h
  · intro key value rest ihv ihr h
    exact ⟨ihv h.1, ihr h.2⟩

theorem WordsApart.map_mapLines {xs : List Symbol} (h : WordsApart xs) :
    WordsApart (xs.map (Symbol.mapLines f)) := by
  rw [WordsApart, List.isChain_map]
  refine h.imp fun x y hxy hx => ?_
  rw [Symbol.kind_mapLines]
  exact hxy ((Symbol.isWord_mapLines f x).1 hx)

/-! ## Expressions -/

theorem layOut_mapLines :
    (∀ (t : Tree) (nodes : Array Node), (t.mapLines f).layOut (nodes.map (Node.mapLines f)) =
        (t.layOut nodes).map (Node.mapLines f)) ∧
      ∀ (a : TreeArguments) (nodes : Array Node),
        (a.mapLines f).layOut (nodes.map (Node.mapLines f)) =
          ((a.layOut nodes).1.map (Node.mapLines f), (a.layOut nodes).2) := by
  refine Tree.induct ?_ ?_ ?_ ?_ ?_ ?_
  · intro l line nodes
    simp [Tree.mapLines, Tree.layOut, Node.mapLines]
  · intro inner ih nodes
    simp [Tree.mapLines, Tree.layOut, ih, Node.mapLines]
  · intro o lhs rhs ihl ihr nodes
    have hnode : ∀ left right : Nat, (o.node left right).mapLines f = o.node left right := by
      intro left right
      cases o <;> rfl
    simp [Tree.mapLines_join, Tree.layOut_join, ihl, ihr, hnode]
  · intro name arguments line ih nodes
    simp [Tree.mapLines, Tree.layOut, ih, Node.mapLines]
  · intro nodes
    rfl
  · intro key value rest ihv ihr nodes
    simp [TreeArguments.mapLines, TreeArguments.layOut, ihv, ihr]

theorem Expression.ofTree_mapLines (t : Tree) : ofTree (t.mapLines f) = (ofTree t).mapLines f := by
  have h := (layOut_mapLines f).1 t #[]
  rw [Array.map_empty] at h
  simp [ofTree, mapLines, h]

end

/-- Syntax that stays on its lines stays the same. -/
theorem Expression.mapLines_id (e : Expression) : e.mapLines id = e := by
  have h : Node.mapLines id = id := by
    funext n
    cases n <;> rfl
  simp [mapLines, h]

theorem Statement.mapLines_id (st : Statement) : st.mapLines id = st := by
  induction st with
  | dialogue text line => rfl
  | command name arguments line => rfl
  | conditional condition body jump line ih =>
    rw [mapLines, Expression.mapLines_id, ih]
    rfl

/-! ## Everything on one line -/

mutual

def Tree.withLine (line : Nat) : Tree → Tree
  | .atom l _ => .atom l line
  | .group inner => .group (inner.withLine line)
  | .comparison c lhs rhs => .comparison c (lhs.withLine line) (rhs.withLine line)
  | .connective c lhs rhs => .connective c (lhs.withLine line) (rhs.withLine line)
  | .call name arguments _ => .call name (arguments.withLine line) line

def TreeArguments.withLine (line : Nat) : TreeArguments → TreeArguments
  | .nil => .nil
  | .cons key value rest => .cons key (value.withLine line) (rest.withLine line)

end

def Node.withLine (line : Nat) : Node → Node
  | .atom l _ => .atom l line
  | .call name arguments _ => .call name arguments line
  | node => node

/-- The same nodes and the same root. -/
def Expression.withLine (line : Nat) (e : Expression) : Expression :=
  ⟨e.nodes.map (Node.withLine line), e.root, by simpa using e.root_lt⟩

def Statement.withLine (line : Nat) : Statement → Statement
  | .dialogue text _ => .dialogue text line
  | .command name arguments _ => .command name arguments line
  | .conditional condition body jump _ =>
    .conditional (condition.withLine line) (body.withLine line) jump line

/-- The program with its lines forgotten. -/
def Program.withoutLines (p : Program) : Program := ⟨p.statements.map (Statement.withLine 0)⟩

def Symbol.withLine (line : Nat) : Symbol → Symbol
  | literal l _ => literal l line
  | name text _ => name text line
  | key text => key text
  | sign kind => sign kind

theorem withLine_eq_mapLines (line : Nat) :
    (∀ t : Tree, t.withLine line = t.mapLines fun _ => line) ∧
      ∀ a : TreeArguments, a.withLine line = a.mapLines fun _ => line := by
  refine Tree.induct ?_ ?_ ?_ ?_ ?_ ?_
  · intro l line'
    rfl
  · intro inner ih
    rw [Tree.withLine, ih, Tree.mapLines]
  · intro o lhs rhs ihl ihr
    cases o <;> simp only [Operator.join, Tree.withLine, Tree.mapLines, ihl, ihr]
  · intro name arguments line' ih
    rw [Tree.withLine, ih, Tree.mapLines]
  · rfl
  · intro key value rest ihv ihr
    rw [TreeArguments.withLine, ihv, ihr, TreeArguments.mapLines]

theorem Symbol.withLine_eq_mapLines (line : Nat) : withLine line = mapLines fun _ => line := by
  funext x
  cases x <;> rfl

theorem Node.withLine_eq_mapLines (line : Nat) : withLine line = mapLines fun _ => line := by
  funext n
  cases n <;> rfl

theorem yield_withLine (line : Nat) (t : Tree) :
    (t.withLine line).yield = t.yield.map (Symbol.withLine line) := by
  rw [(withLine_eq_mapLines line).1, Symbol.withLine_eq_mapLines, (yield_mapLines _).1]

theorem Tree.Levelled.withLine {t : Tree} (h : t.Levelled) (line : Nat) :
    (t.withLine line).Levelled := by
  rw [(withLine_eq_mapLines line).1]
  exact (levelled_mapLines _).1 t h

theorem WordsApart.map_withLine {xs : List Symbol} (h : WordsApart xs) (line : Nat) :
    WordsApart (xs.map (Symbol.withLine line)) := by
  rw [Symbol.withLine_eq_mapLines]
  exact h.map_mapLines _

theorem Expression.ofTree_withLine (line : Nat) (t : Tree) :
    ofTree (t.withLine line) = (ofTree t).withLine line := by
  simp only [(withLine_eq_mapLines line).1, ofTree_mapLines, withLine, mapLines,
    Node.withLine_eq_mapLines]

theorem Node.withLine_withLine (line other : Nat) (n : Node) :
    (n.withLine other).withLine line = n.withLine line := by
  cases n <;> rfl

theorem Expression.withLine_withLine (line other : Nat) (e : Expression) :
    (e.withLine other).withLine line = e.withLine line := by
  have h : Node.withLine line ∘ Node.withLine other = Node.withLine line :=
    funext (Node.withLine_withLine line other)
  simp [withLine, h]

theorem Expression.withLine_eq_mapLines (line : Nat) (e : Expression) :
    e.withLine line = e.mapLines fun _ => line := by
  simp only [withLine, mapLines, Node.withLine_eq_mapLines]

theorem Statement.withLine_eq_mapLines (line : Nat) (st : Statement) :
    st.withLine line = st.mapLines fun _ => line := by
  induction st with
  | dialogue | command => rfl
  | conditional condition body jump line' ih =>
    rw [withLine, mapLines, Expression.withLine_eq_mapLines, ih]

/-! ## The lines of a tree -/

def Symbol.line? : Symbol → Option Nat
  | literal _ line | name _ line => some line
  | key _ | sign _ => none

/-- The lines of the atoms and calls of a tree from left to right. -/
def Tree.lines (t : Tree) : List Nat := t.yield.filterMap Symbol.line?

def TreeArguments.lines (a : TreeArguments) : List Nat := a.yield.filterMap Symbol.line?

@[simp] theorem Tree.lines_atom (l : Literal) (line : Nat) : (atom l line).lines = [line] := rfl

@[simp] theorem Tree.lines_group (inner : Tree) : (group inner).lines = inner.lines := by
  simp [lines, yield, List.filterMap_cons, Symbol.line?]

@[simp] theorem Tree.lines_join (o : Operator) (lhs rhs : Tree) :
    (o.join lhs rhs).lines = lhs.lines ++ rhs.lines := by
  simp [lines, yield_join, List.filterMap_cons, Symbol.line?]

@[simp] theorem Tree.lines_call (name : String) (arguments : TreeArguments) (line : Nat) :
    (call name arguments line).lines = line :: arguments.lines := by
  simp [lines, TreeArguments.lines, yield, List.filterMap_cons, Symbol.line?]

@[simp] theorem TreeArguments.lines_cons (key : Option String) (value : Tree)
    (rest : TreeArguments) : (cons key value rest).lines = value.lines ++ rest.lines := by
  cases key <;>
    simp [lines, Tree.lines, yield, Symbol.ofKey, List.filterMap_cons, Symbol.line?]

/-- The line of a tree is one of its lines. -/
theorem Tree.line_mem_lines (t : Tree) : t.line ∈ t.lines := by
  refine (Tree.induct (P := fun t => t.line ∈ t.lines) (Q := fun _ => True) ?_ ?_ ?_ ?_ trivial
    fun _ _ _ _ _ => trivial).1 t
  · intro l line
    simp [Tree.line]
  · intro inner ih
    simpa [Tree.line] using ih
  · intro o lhs rhs ihl _
    have hline : (o.join lhs rhs).line = lhs.line := by cases o <;> rfl
    rw [hline, lines_join]
    exact List.mem_append_left _ ihl
  · intro name arguments line _
    simp [Tree.line]

/-! ## The lines of a statement -/

namespace Statement

/-- What stands under all the guards. -/
def innermost : Statement → Statement
  | dialogue text line => dialogue text line
  | command name arguments line => command name arguments line
  | conditional _ body _ _ => body.innermost

/-- The condition of every guard is on the line of the guard, and what it guards is not before. -/
def Lined : Statement → Prop
  | dialogue _ _ | command _ _ _ => True
  | conditional condition body _ line =>
    (∃ t : Tree, condition = .ofTree t ∧ ∀ k ∈ t.lines, k = line) ∧ line ≤ body.line ∧ body.Lined

theorem Lined.line_le {s : Statement} (h : s.Lined) : s.line ≤ s.innermost.line := by
  induction s with
  | dialogue | command => exact Nat.le_refl _
  | conditional condition body jump line ih => exact h.2.1.trans (ih h.2.2)

end Statement

end StageScript
