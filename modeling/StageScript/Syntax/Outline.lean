import StageScript.Syntax.Statement
import StageScript.Text.Dump
import StageScript.Text.Quoted

set_option autoImplicit false

/-! # Programs with all their fields

The structural listing of a program spells out every field of every statement and node, quotes all
text, and refers to nodes by their positions. -/

namespace StageScript

namespace Dump

/-- A text in quotes. -/
def text (s : String) : Dump := word (Text.quote s)

/-- A value that may be missing. -/
def option {α : Type} (f : α → Dump) : Option α → Dump
  | some value => variant "Some" [f value]
  | none => word "None"

/-- The position of a node. -/
def reference (position : Nat) : Dump := variant "ExpressionNodeRef" [nat position]

end Dump

/-! ## Expressions -/

/-- The name of a kind of literal. -/
def LiteralKind.structuralName : LiteralKind → String
  | number => "Number"
  | string => "String"
  | word => "Word"

/-- A literal with its fields. -/
def Literal.dump (l : Literal) : Dump :=
  .record "Literal" [("kind", .word l.kind.structuralName), ("text", .text l.text)]

/-- The name of a comparison. -/
def Comparison.structuralName : Comparison → String
  | equal => "Equal"
  | notEqual => "NotEqual"
  | less => "LessThan"
  | lessEqual => "LessThanEqual"
  | greater => "GreaterThan"
  | greaterEqual => "GreaterThanEqual"

/-- The name of a connective. -/
def Connective.structuralName : Connective → String
  | conjunction => "And"
  | disjunction => "Or"

/-- An argument of a call with its fields. -/
def NodeArgument.dump (a : NodeArgument) : Dump :=
  .record "CallArgument" [("key", .option .text a.key), ("value", .reference a.value)]

/-- The fields of a node between two operands. -/
def Dump.operands (operator : String) (lhs rhs : Nat) : List (String × Dump) :=
  [("operator", .word operator), ("lhs", .reference lhs), ("rhs", .reference rhs)]

/-- A node with its fields. -/
def Node.dump : Node → Dump
  | atom literal line =>
    .variant "Atom" [.record "ExpressionAtom" [("literal", literal.dump), ("line", .nat line)]]
  | group inner => .record "Group" [("inner", .reference inner)]
  | comparison operator lhs rhs =>
    .record "Relational" (Dump.operands operator.structuralName lhs rhs)
  | connective operator lhs rhs =>
    .record "Logical" (Dump.operands operator.structuralName lhs rhs)
  | call name arguments line =>
    .record "Call" [("name", .text name), ("arguments", .list (arguments.map NodeArgument.dump)),
      ("line", .nat line)]

/-- An expression with its fields. -/
def Expression.dump (e : Expression) : Dump :=
  .record "Expression" [("nodes", .list (e.nodes.toList.map Node.dump)),
    ("root", .reference e.root)]

/-! ## Statements -/

/-- The arguments of a command with their fields. -/
def Arguments.dump (a : Arguments) : Dump :=
  let entry := fun (key, value) => Dump.variant "" [.variant "ArgKey" [.text key], value.dump]
  .record "Arguments" [("entries", .list (a.entries.map entry))]

/-- A statement with its fields. -/
def Statement.dump : Statement → Dump
  | dialogue text line =>
    .variant "Dialogue" [.record "DialogueStatement" [("text", .text text), ("line", .nat line)]]
  | command name arguments line =>
    .variant "Command" [.record "CommandStatement" [("name", .text name),
      ("arguments", arguments.dump), ("line", .nat line)]]
  | conditional condition body jump line =>
    .variant "Conditional" [.record "ConditionalStatement" [("condition", condition.dump),
      ("body", body.dump), ("jump", .option .text jump), ("line", .nat line)]]

/-- A program with its fields. -/
def Program.dump (p : Program) : Dump :=
  .record "Program" [("statements", .list (p.statements.map Statement.dump))]

end StageScript
