import StageScript.Token.Listing

set_option autoImplicit false

/-! # Syntax errors

A syntax error names the item at which the script stops making sense, by its span and its line,
and says what was wrong with it. A lexical error that the parser comes upon is passed on whole. -/

namespace StageScript

/-- What is wrong with a script. -/
inductive ParseErrorKind where
  | unexpectedToken (actual expected : TokenKind)
  /-- No expression starts with this token. -/
  | notAnExpression (actual : TokenKind)
  /-- This token is no value of a command argument. -/
  | notAValue (actual : TokenKind)
  | unexpectedEnd
  /-- No statement starts with this token. -/
  | notAStatement (actual : TokenKind)
  | lexical (error : LexicalError)
  deriving DecidableEq

/-- Something wrong with a script, and where. -/
structure ParseError where
  kind : ParseErrorKind
  span : Span
  line : Nat
  deriving DecidableEq

/-! ## Making errors -/

/-- An error at a token. -/
def ParseError.atToken (kind : ParseErrorKind) (t : Token) : ParseError := ⟨kind, t.span, t.line⟩

/-- A lexical error as a syntax error. -/
def ParseError.ofLexical (e : LexicalError) : ParseError := ⟨.lexical e, e.span, e.line⟩

/-! ## Messages -/

namespace ParseErrorKind

/-- The kind of the token that is wrong. -/
def actual? : ParseErrorKind → Option TokenKind
  | unexpectedToken actual _ => some actual
  | notAnExpression actual => some actual
  | notAValue actual => some actual
  | notAStatement actual => some actual
  | unexpectedEnd | lexical _ => none

/-- The kind of the token that should have been there. -/
def expected? : ParseErrorKind → Option TokenKind
  | unexpectedToken _ expected => some expected
  | _ => none

/-- What is wrong, in a sentence. -/
def message : ParseErrorKind → String
  | unexpectedToken actual expected => s!"Expected {expected.name} but got token {actual.name}."
  | notAnExpression actual => s!"Expected an expression but got token {actual.name}."
  | notAValue actual => s!"Expected an argument value but got token {actual.name}."
  | unexpectedEnd => "Expected a non-EOF token."
  | notAStatement actual => s!"Expected a statement but got {actual.name}."
  | lexical e => s!"Encountered a lexer error {e.message}."

/-- The messages of the errors that caused this one. -/
def causes : ParseErrorKind → List String
  | lexical e => e.message :: e.causes
  | _ => []

/-- What is wrong, after the line it is wrong on. -/
def plainAt (line : Nat) : ParseErrorKind → String
  | unexpectedToken actual expected =>
    s!"[line {line}] Error: Expected {expected.name} but got {actual.name}."
  | notAnExpression actual => s!"[line {line}] Error at {actual.name}: Expect expression."
  | notAValue actual => s!"[line {line}] Error at {actual.name}: Expect argument value."
  | unexpectedEnd => s!"[line {line}] Error at end: Unexpected EOF."
  | notAStatement actual => s!"[line {line}] Error at {actual.name}: Expect statement."
  | lexical e => e.kind.plainAt line

end ParseErrorKind

namespace ParseError

/-- The line and what is wrong on it. -/
def message (e : ParseError) : String := s!"[line {e.line}] {e.kind.message}"

/-- The messages of the causes of an error, the nearest first. -/
def causes (e : ParseError) : List String := e.kind.message :: e.kind.causes

/-- The error as a line of the error output. -/
def plain (e : ParseError) : String := e.kind.plainAt e.line

end ParseError

end StageScript
