import StageScript.Text.Marks

set_option autoImplicit false

/-! # Literals

A literal is a number, a quoted string or a bare word, kept exactly as it is written: a string
keeps its marks until its text is asked for. -/

namespace StageScript

/-- What a literal is written as. -/
inductive LiteralKind where
  | number
  | string
  | word
  deriving DecidableEq

/-- A literal as it is written. -/
structure Literal where
  kind : LiteralKind
  text : String
  deriving DecidableEq

namespace Literal

/-- A number as it is written. -/
def number (text : String) : Literal := ⟨.number, text⟩

/-- A string with its marks. -/
def string (text : String) : Literal := ⟨.string, text⟩

/-- A bare word. -/
def word (text : String) : Literal := ⟨.word, text⟩

/-- The text that a command receives: a string loses its marks, anything else stays as written. -/
def argumentText (l : Literal) : String :=
  match l.kind with
  | .string => (Text.unmark? l.text).getD l.text
  | .number | .word => l.text

end Literal

end StageScript
