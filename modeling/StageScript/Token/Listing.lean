import StageScript.Decimal.Layout
import StageScript.Decimal.Reader
import StageScript.Text.Dump
import StageScript.Text.Marks
import StageScript.Text.Quoted
import StageScript.Text.Width
import StageScript.Token.Stream

set_option autoImplicit false

/-! # Token listings

A script is listed one item per line. The plain listing writes a token as its kind, its text and
the value of that text; the structural one spells out the fields of each item. Tokens go to the
output and lexical errors to the error output. -/

namespace StageScript

/-! ## Plain lines -/

/-- A token as kind, text and value. Line and file ends have neither text nor value to show. -/
def Token.plain (t : Token) : String :=
  match t.kind with
  | .newline | .endOfFile => t.kind.name ++ "  null"
  | .number =>
    let value := (Decimal.read? (Text.foldWidth t.text)).map Decimal.listed
    "NUMBER " ++ t.text ++ " " ++ value.getD "null"
  | .string => "STRING " ++ t.text ++ " " ++ (Text.unmark? t.text).getD ""
  | kind => kind.name ++ " " ++ t.text ++ " null"

/-- What is wrong, after the line it is wrong on. -/
def LexicalErrorKind.plainAt (line : Nat) : LexicalErrorKind → String
  | unrecognized c => s!"[line {line}] Error: Unexpected character: {c}"
  | unclosedString => s!"[line {line}] Error: Unterminated string."

/-- A lexical error as a plain line. -/
def LexicalError.plain (e : LexicalError) : String := e.kind.plainAt e.line

/-! ## Structural lines -/

/-- The name of a kind in a structural listing. -/
def TokenKind.structuralName : TokenKind → String
  | leftParen => "LeftParenthesis"
  | rightParen => "RightParenthesis"
  | colon => "Colon"
  | guardMark => "Guard"
  | arrow => "Arrow"
  | equal => "Equal"
  | notEqual => "BangEqual"
  | less => "LessThan"
  | lessEqual => "LessThanEqual"
  | greater => "GreaterThan"
  | greaterEqual => "GreaterThanEqual"
  | number => "NumericLiteral"
  | string => "StringLiteral"
  | identifier => "Ident"
  | conjunction => "KeywordAnd"
  | disjunction => "KeywordOr"
  | newline => "Newline"
  | endOfFile => "Eof"

/-- A span with its fields. -/
def Span.dump (s : Span) : Dump :=
  .record "Span" [("start", .nat s.start.toNat), ("length", .nat s.length.toNat)]

/-- A token with its fields. -/
def Token.dump (t : Token) : Dump :=
  .record "Token" [("kind", .word t.kind.structuralName), ("span", t.span.dump)]

/-- What is wrong, with the character that is. -/
def LexicalErrorKind.dump : LexicalErrorKind → Dump
  | unrecognized c => .variant "Unrecognized" [.word (Text.quoteChar c)]
  | unclosedString => .word "UnclosedString"

/-- A lexical error with its fields. -/
def LexicalError.dump (e : LexicalError) : Dump :=
  .record "LexicalError" [("kind", e.kind.dump), ("span", e.span.dump)]

/-! ## Listings -/

/-- A line of output. -/
inductive OutputLine where
  | out (text : String)
  | err (text : String)
  deriving DecidableEq

/-- The two ways to list tokens. -/
inductive TokenFormat where
  | plain
  | structural
  deriving DecidableEq

/-- The line of an item. -/
def Item.listed (format : TokenFormat) : Item → OutputLine
  | token t => .out (match format with | .plain => t.plain | .structural => t.dump.inline)
  | error e => .err (match format with | .plain => e.plain | .structural => e.dump.inline)

/-- The lines of a whole script. -/
def Stream.listing (format : TokenFormat) (s : Stream) : List OutputLine :=
  s.toList.map (Item.listed format)

end StageScript
