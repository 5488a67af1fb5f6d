import StageScript.Syntax.Tree

set_option autoImplicit false

/-! # Expressions as node lists

An expression is stored as a list of nodes that refer to each other by position, with one node as
its root. Nodes may be shared, and a list may hold nodes that the root does not reach.
`Expression.ofTree` lays a tree out with every node behind its operands and arguments. -/

namespace StageScript

/-! ## Nodes -/

/-- An argument of a call, by the position of its value. -/
structure NodeArgument where
  key : Option String
  value : Nat
  deriving DecidableEq

/-- A node with the positions of its operands. -/
inductive Node where
  | atom (literal : Literal) (line : Nat)
  | group (inner : Nat)
  | comparison (operator : Comparison) (lhs rhs : Nat)
  | connective (operator : Connective) (lhs rhs : Nat)
  | call (name : String) (arguments : List NodeArgument) (line : Nat)
  deriving DecidableEq

/-- A list of nodes and the position of the root among them. -/
structure Expression where
  nodes : Array Node
  root : Nat
  root_lt : root < nodes.size
  deriving DecidableEq

namespace Expression

/-- The expression with the given nodes, if the root is one of them. -/
def ofNodes? (nodes : Array Node) (root : Nat) : Option Expression :=
  if h : root < nodes.size then some ⟨nodes, root, h⟩ else none

/-- The node at the root. -/
def rootNode (e : Expression) : Node :=
  have := e.root_lt
  e.nodes[e.root]

/-! ## Lines -/

/-- The line of the node at a position, found within `fuel` steps to the left. -/
def lineWithin (e : Expression) : Nat → Nat → Option Nat
  | 0, _ => none
  | fuel + 1, position =>
    match e.nodes[position]? with
    | none => none
    | some (.atom _ line) => some line
    | some (.call _ _ line) => some line
    | some (.group inner) => e.lineWithin fuel inner
    | some (.comparison _ lhs _) => e.lineWithin fuel lhs
    | some (.connective _ lhs _) => e.lineWithin fuel lhs

/-- The line of the node at a position: that of its leftmost atom or call. A path without a
    repeated node is no longer than the list of nodes. -/
def lineAt? (e : Expression) (position : Nat) : Option Nat :=
  e.lineWithin e.nodes.size position

/-- The line of the node at a position, with zero where there is none. -/
def lineAt (e : Expression) (position : Nat) : Nat := (e.lineAt? position).getD 0

end Expression

/-! ## Layout -/

mutual

/-- The nodes of a tree behind the given ones; its root comes last. -/
def Tree.layOut (nodes : Array Node) : Tree → Array Node
  | .atom literal line => nodes.push (.atom literal line)
  | .group inner =>
    let nodes := inner.layOut nodes
    nodes.push (.group (nodes.size - 1))
  | .comparison operator lhs rhs =>
    let left := lhs.layOut nodes
    let right := rhs.layOut left
    right.push (.comparison operator (left.size - 1) (right.size - 1))
  | .connective operator lhs rhs =>
    let left := lhs.layOut nodes
    let right := rhs.layOut left
    right.push (.connective operator (left.size - 1) (right.size - 1))
  | .call name arguments line =>
    let (nodes, references) := arguments.layOut nodes
    nodes.push (.call name references line)

/-- The nodes of the arguments behind the given ones, and where each argument has its root. -/
def TreeArguments.layOut (nodes : Array Node) : TreeArguments → Array Node × List NodeArgument
  | .nil => (nodes, [])
  | .cons key value rest =>
    let here := value.layOut nodes
    let (there, references) := rest.layOut here
    (there, ⟨key, here.size - 1⟩ :: references)

end

/-- A tree has at least one node. -/
theorem Tree.size_layOut_pos (t : Tree) (nodes : Array Node) : 0 < (t.layOut nodes).size := by
  cases t <;> simp [Tree.layOut]

/-- A tree as a list of nodes. -/
def Expression.ofTree (t : Tree) : Expression :=
  ⟨t.layOut #[], (t.layOut #[]).size - 1, by have := t.size_layOut_pos #[]; omega⟩

/-! ## Unfolding -/

/-- The arguments whose values a function finds at their positions. -/
def TreeArguments.collect? (find : Nat → Option Tree) : List NodeArgument → Option TreeArguments
  | [] => some .nil
  | argument :: rest => do
    let value ← find argument.value
    let others ← collect? find rest
    return .cons argument.key value others

namespace Expression

/-- The tree below a position, if it is found within `fuel` levels. -/
def treeWithin? (e : Expression) : Nat → Nat → Option Tree
  | 0, _ => none
  | fuel + 1, position =>
    match e.nodes[position]? with
    | none => none
    | some (.atom literal line) => some (.atom literal line)
    | some (.group inner) => (e.treeWithin? fuel inner).map .group
    | some (.comparison operator lhs rhs) => do
      let left ← e.treeWithin? fuel lhs
      let right ← e.treeWithin? fuel rhs
      return .comparison operator left right
    | some (.connective operator lhs rhs) => do
      let left ← e.treeWithin? fuel lhs
      let right ← e.treeWithin? fuel rhs
      return .connective operator left right
    | some (.call name arguments line) => do
      let values ← TreeArguments.collect? (e.treeWithin? fuel) arguments
      return .call name values line

/-- The tree that an expression spells out from its root; none if a position is missing or the
    nodes go round in a circle. -/
def tree? (e : Expression) : Option Tree := e.treeWithin? e.nodes.size e.root

end Expression

end StageScript
