import StageScript.Syntax.Arguments
import StageScript.Syntax.Expression

set_option autoImplicit false

/-! # Statements

A script is a list of statements: lines of dialogue, commands, and statements under a guard. The
label after the arrow of a guarded statement is kept although nothing jumps to it. -/

namespace StageScript

/-- A statement with the line on which it starts. -/
inductive Statement where
  /-- A line that the character says, with its marks. -/
  | dialogue (text : String) (line : Nat)
  /-- A command to the stage. -/
  | command (name : String) (arguments : Arguments) (line : Nat)
  /-- A statement under a condition, with the label to jump to when it is not met. -/
  | conditional (condition : Expression) (body : Statement) (jump : Option String) (line : Nat)
  deriving DecidableEq

/-- The line on which a statement starts. -/
def Statement.line : Statement → Nat
  | dialogue _ line => line
  | command _ _ line => line
  | conditional _ _ _ line => line

/-- The statements of a script in order. -/
structure Program where
  statements : List Statement
  deriving DecidableEq

/-- The number of statements that stand by themselves. -/
def Program.size (p : Program) : Nat := p.statements.length

end StageScript
