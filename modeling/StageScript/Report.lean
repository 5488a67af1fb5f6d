import StageScript.Syntax.Error

set_option autoImplicit false

/-! # Annotated reports

An annotated report points at the place of an error in its file: it has a title, a location of
path, line and column, and a label for the marked text. How a range of characters becomes a line
and a column is left to a locator. For the standard one they count from one and in characters, only
a newline ends a line, and one at the very end of the text opens no further line. -/

namespace StageScript

/-- A report that points into a file. -/
structure Report where
  title : String
  location : String
  label : String
  deriving DecidableEq

namespace Report

/-! ## Places -/

/-- The line and column of the character at a position, when the text before it ends at the given
    line and column. -/
def placeFrom (line column : Nat) : Nat → List Char → Nat × Nat
  | 0, _ => (line, column)
  | _, [] => (line, column)
  | position + 1, c :: cs =>
    if c == '\n' && !cs.isEmpty then placeFrom (line + 1) 1 position cs
    else placeFrom line (column + 1) position cs

/-- The line and column of the character at a position. -/
def place (text : List Char) (position : Nat) : Nat × Nat := placeFrom 1 1 position text

/-- How the line and column of a range of characters of a text are found. -/
def Locator : Type := List Char → Nat × Nat → Nat × Nat

/-- The line and column of the first character of a range. -/
def Locator.standard : Locator := fun text range => place text range.1

/-- A report on a span of the text of a file. -/
def onSpan (locate : Locator) (path : String) (text : List Char) (span : Span)
    (title label : String) : Report :=
  let (line, column) := locate text (span.charRange text)
  ⟨title, s!"{path}:{line}:{column}", label⟩

end Report

/-! ## Errors -/

/-- What to put over and beside text that is no token. -/
def LexicalErrorKind.caption : LexicalErrorKind → String × String
  | unrecognized c => ("Unexpected character", s!"`{c}` is not part of the script alphabet")
  | unclosedString => ("Unterminated string", "This `「` is never closed on its line")

/-- What to put over and beside a syntax error. -/
def ParseErrorKind.caption : ParseErrorKind → String × String
  | unexpectedToken actual expected =>
    ("Expected a different token", s!"Expected {expected.name} but got {actual.name}")
  | notAnExpression actual =>
    ("Expected a valid expression", s!"Not an expression token {actual.name}")
  | notAValue actual =>
    ("Expected an argument value", s!"{actual.name} cannot be a command argument")
  | unexpectedEnd => ("Unexpected EOF", "File ends here...")
  | notAStatement actual =>
    ("Expected a statement", s!"A statement cannot start with {actual.name}")
  | lexical e => e.kind.caption

/-- The report on text that is no token, located by `locate`. -/
def LexicalError.reportBy (locate : Report.Locator) (path : String) (text : List Char)
    (e : LexicalError) : Report :=
  .onSpan locate path text e.span e.kind.caption.1 e.kind.caption.2

/-- The report on text that is no token. -/
def LexicalError.report (path : String) (text : List Char) (e : LexicalError) : Report :=
  e.reportBy .standard path text

/-- The report on a syntax error, located by `locate`. A lexical error has its own. -/
def ParseError.reportBy (locate : Report.Locator) (path : String) (text : List Char)
    (e : ParseError) : Report :=
  match e.kind with
  | .lexical l => l.reportBy locate path text
  | kind => .onSpan locate path text e.span kind.caption.1 kind.caption.2

/-- The report on a syntax error. -/
def ParseError.report (path : String) (text : List Char) (e : ParseError) : Report :=
  e.reportBy .standard path text

end StageScript
