import StageScript.Run.Value

set_option autoImplicit false

/-! # Failures and diagnostics

A statement that cannot be carried out fails with a reason and its line. Everything that goes wrong
in a run, failures included, is reported as a diagnostic; none of it stops the run. -/

namespace StageScript

/-! ## Failures -/

/-- Why a statement cannot be carried out. -/
inductive FailureKind where
  /-- The text of a dialogue has no marks to take off. -/
  | malformedDialogue (text : String)
  /-- A command lacks an argument that it needs. -/
  | missingArgument (command key : String)
  deriving DecidableEq

/-- A statement that cannot be carried out. -/
structure Failure where
  kind : FailureKind
  line : Nat
  deriving DecidableEq

/-- Why a statement cannot be carried out, in a sentence. -/
def FailureKind.message : FailureKind → String
  | malformedDialogue text => s!"Dialogue {text} is not wrapped in quote markers"
  | missingArgument command key => s!"Command `{command}` requires the argument `{key}`"

/-- The line and why its statement cannot be carried out. -/
def Failure.message (f : Failure) : String := s!"[line {f.line}] {f.kind.message}"

/-- The messages of the causes of a failure, the nearest first. -/
def Failure.causes (f : Failure) : List String := [f.kind.message]

/-! ## Diagnostics -/

/-- Something that went wrong in a run. -/
inductive Diagnostic where
  | unknownCommand (name : String) (line : Nat)
  | unknownFunction (name : String) (line : Nat)
  | coercion (error : CoercionError) (line : Nat)
  /-- A jump that the script asks for and that is not made. -/
  | ignoredJump (label : String) (line : Nat)
  | failed (failure : Failure)
  deriving DecidableEq

namespace Diagnostic

/-- The line of the script that the diagnostic is about. -/
def line : Diagnostic → Nat
  | unknownCommand _ line => line
  | unknownFunction _ line => line
  | coercion _ line => line
  | ignoredJump _ line => line
  | failed failure => failure.line

/-- The line and what went wrong on it. -/
def message : Diagnostic → String
  | unknownCommand name line => s!"[line {line}] Unknown command `{name}`"
  | unknownFunction name line => s!"[line {line}] Unknown function `{name}`, using 0"
  | coercion error line => s!"[line {line}] {error.message}"
  | ignoredJump label line => s!"[line {line}] Jump to `{label}` is not supported"
  | failed failure => failure.message

end Diagnostic

end StageScript
