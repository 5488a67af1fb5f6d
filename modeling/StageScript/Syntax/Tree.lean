import StageScript.Syntax.Literal
import StageScript.Syntax.Operator

set_option autoImplicit false

/-! # Expression trees

A condition as its grammar shapes it. A call keeps its arguments in the order in which they are
written, each with or without a key. -/

namespace StageScript

mutual

/-- An expression. -/
inductive Tree where
  | atom (literal : Literal) (line : Nat)
  | group (inner : Tree)
  | comparison (operator : Comparison) (lhs rhs : Tree)
  | connective (operator : Connective) (lhs rhs : Tree)
  | call (name : String) (arguments : TreeArguments) (line : Nat)

/-- The arguments of a call. -/
inductive TreeArguments where
  | nil
  | cons (key : Option String) (value : Tree) (rest : TreeArguments)

end

/-- The expression that an operator makes of two operands. -/
def Operator.join (lhs rhs : Tree) : Operator → Tree
  | comparison c => .comparison c lhs rhs
  | connective c => .connective c lhs rhs

/-- The line of the leftmost atom or call. -/
def Tree.line : Tree → Nat
  | atom _ line => line
  | group inner => inner.line
  | comparison _ lhs _ => lhs.line
  | connective _ lhs _ => lhs.line
  | call _ _ line => line

end StageScript
