import StageScript.Decimal.Layout
import StageScript.Decimal.Reader
import StageScript.Syntax.Statement
import StageScript.Text.Width

set_option autoImplicit false

/-! # Programs as S-expressions

One line per statement. Every form is a parenthesis with a word in front: `say`, `command` and `if`
for statements; `group`, `call` and the operator signs for expressions. A number is written by its
value, any other literal as it stands in the script, and a keyed argument as a pair of key and
value. -/

namespace StageScript

/-! ## Expressions -/

/-- A literal: a number by its value, anything else as written. -/
def Literal.sexpr (l : Literal) : String :=
  match l.kind with
  | .number => ((Decimal.read? (Text.foldWidth l.text)).map Decimal.listed).getD l.text
  | .string | .word => l.text

namespace SExpression

/-- A form of three words. -/
def ternary (head first second : String) : String :=
  "(" ++ head ++ " " ++ first ++ " " ++ second ++ ")"

/-- An argument after the blank that separates it from what is before it. -/
def argument (key : Option String) (value : String) : String :=
  match key with
  | some key => " (" ++ key ++ " " ++ value ++ ")"
  | none => " " ++ value

end SExpression

namespace Expression

/-- The node at a position, written within `bound` levels. -/
def sexprWithin (e : Expression) : Nat → Nat → String
  | 0, _ => ""
  | bound + 1, position =>
    match e.nodes[position]? with
    | none => ""
    | some (.atom literal _) => literal.sexpr
    | some (.group inner) => "(group " ++ e.sexprWithin bound inner ++ ")"
    | some (.comparison operator lhs rhs) =>
      SExpression.ternary operator.symbol (e.sexprWithin bound lhs) (e.sexprWithin bound rhs)
    | some (.connective operator lhs rhs) =>
      SExpression.ternary operator.symbol (e.sexprWithin bound lhs) (e.sexprWithin bound rhs)
    | some (.call name arguments _) =>
      let written := arguments.map fun a => SExpression.argument a.key (e.sexprWithin bound a.value)
      "(call " ++ name ++ String.join written ++ ")"

/-- The expression below its root. -/
def sexpr (e : Expression) : String := e.sexprWithin e.nodes.size e.root

end Expression

/-! ## Statements -/

/-- A command argument after its blank. -/
def SExpression.entry (entry : String × Literal) : String :=
  " (" ++ entry.1 ++ " " ++ entry.2.sexpr ++ ")"

/-- A statement on one line. -/
def Statement.sexpr : Statement → String
  | dialogue text _ => "(say " ++ text ++ ")"
  | command name arguments _ =>
    "(command " ++ name ++ String.join (arguments.entries.map SExpression.entry) ++ ")"
  | conditional condition body jump _ =>
    let label :=
      match jump with
      | some label => " (jump " ++ label ++ ")"
      | none => ""
    "(if " ++ condition.sexpr ++ " " ++ body.sexpr ++ label ++ ")"

/-- The statements of a program, a line each. -/
def Program.sexpr (p : Program) : String := "\n".intercalate (p.statements.map Statement.sexpr)

end StageScript
