import StageScript.Source.Span

set_option autoImplicit false

/-! # Tokens and lexical errors

A script is read as a sequence of items: tokens and, where the text makes up none, lexical errors.
Every item knows its span and the line on which it starts, and a token also the text it was written
as. The sequence ends in one token for the end of the file, which has no text. -/

namespace StageScript

/-! ## Kinds -/

/-- What a token is. -/
inductive TokenKind where
  | leftParen | rightParen
  | colon | guardMark | arrow
  | equal | notEqual | less | lessEqual | greater | greaterEqual
  | number | string | identifier
  | conjunction | disjunction
  | newline | endOfFile
  deriving DecidableEq

namespace TokenKind

/-- The name that messages and listings use. -/
def name : TokenKind → String
  | leftParen => "LEFT_PAREN"
  | rightParen => "RIGHT_PAREN"
  | colon => "COLON"
  | guardMark => "GUARD"
  | arrow => "ARROW"
  | equal => "EQUAL"
  | notEqual => "BANG_EQUAL"
  | less => "LESS"
  | lessEqual => "LESS_EQUAL"
  | greater => "GREATER"
  | greaterEqual => "GREATER_EQUAL"
  | number => "NUMBER"
  | string => "STRING"
  | identifier => "IDENTIFIER"
  | conjunction => "AND"
  | disjunction => "OR"
  | newline => "NEWLINE"
  | endOfFile => "EOF"

/-- The kind of a word that is a keyword. -/
def ofKeyword? (word : String) : Option TokenKind :=
  if word == "かつ" || word == "and" then some conjunction
  else if word == "または" || word == "or" then some disjunction
  else none

/-- The kind of a word. -/
def ofWord (word : String) : TokenKind := (ofKeyword? word).getD identifier

end TokenKind

/-! ## Items -/

/-- A token with the text it was written as. -/
structure Token where
  kind : TokenKind
  span : Span
  line : Nat
  text : String
  deriving DecidableEq

/-- Why some text is no token. -/
inductive LexicalErrorKind where
  /-- A character that starts no token. -/
  | unrecognized (c : Char)
  /-- A string whose marks do not balance before the line ends. -/
  | unclosedString
  deriving DecidableEq

/-- Text that is no token. -/
structure LexicalError where
  kind : LexicalErrorKind
  span : Span
  line : Nat
  deriving DecidableEq

/-- One step of reading a script. -/
inductive Item where
  | token (t : Token)
  | error (e : LexicalError)
  deriving DecidableEq

/-- The span of an item. -/
def Item.span : Item → Span
  | token t => t.span
  | error e => e.span

/-- The line on which an item starts. -/
def Item.line : Item → Nat
  | token t => t.line
  | error e => e.line

/-! ## Messages -/

/-- What is wrong. -/
def LexicalErrorKind.message : LexicalErrorKind → String
  | unrecognized c => "Unrecognized character " ++ c.toString
  | unclosedString => "Unterminated string literal"

/-- What is wrong. -/
def LexicalError.message (e : LexicalError) : String := e.kind.message

/-- The messages of the causes of an error, the nearest first. -/
def LexicalError.causes (e : LexicalError) : List String := [e.kind.message]

end StageScript
