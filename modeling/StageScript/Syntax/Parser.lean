import StageScript.Syntax.Error
import StageScript.Syntax.Statement
import StageScript.Token.Scanner

set_option autoImplicit false

/-! # Reading statements and expressions

A parser takes items off a stream. It gives a result or an error and, in either case, the stream
that is left, so that reading can go on behind an error. Looking at an item leaves it in the
stream, even when it turns out to be a lexical error; only taking it removes it.

The functions whose names end in `Within` recurse on a bound. Every second step takes an item at
least, so twice the number of items and a little more is enough; the functions without a bound in
their names start from there. -/

namespace StageScript

/-! ## Parsers -/

/-- What a parser comes to, with the stream that is left. -/
inductive Reply (α : Type) where
  | ok (value : α) (rest : Stream)
  | error (error : ParseError) (rest : Stream)

/-- A reader of items. -/
def Parser (α : Type) : Type := Stream → Reply α

namespace Parser

/-- Takes nothing and gives a value. -/
protected def pure {α : Type} (value : α) : Parser α := fun s => .ok value s

/-- Goes on with the value, unless there is an error. -/
protected def bind {α β : Type} (p : Parser α) (f : α → Parser β) : Parser β := fun s =>
  match p s with
  | .ok value rest => f value rest
  | .error e rest => .error e rest

instance : Monad Parser where
  pure := Parser.pure
  bind := Parser.bind

theorem pure_apply {α : Type} (value : α) (s : Stream) :
    (pure value : Parser α) s = .ok value s := rfl

theorem bind_apply {α β : Type} (p : Parser α) (f : α → Parser β) (s : Stream) :
    (p >>= f) s =
      match p s with
      | .ok value rest => f value rest
      | .error e rest => .error e rest := rfl

/-- Fails at a token. -/
def fail {α : Type} (kind : ParseErrorKind) (t : Token) : Parser α := fun s =>
  .error (ParseError.atToken kind t) s

/-- The bound is used up. -/
def exhausted {α : Type} : Parser α := fun s =>
  .error (ParseError.atToken .unexpectedEnd s.finish) s

/-! ## Single items -/

/-- The next token, left in the stream. -/
def peek : Parser Token := fun s =>
  match s.head with
  | .token t => .ok t s
  | .error e => .error (ParseError.ofLexical e) s

/-- The next token, taken. -/
def next : Parser Token := fun s =>
  match s.head with
  | .token t => .ok t s.tail
  | .error e => .error (ParseError.ofLexical e) s.tail

/-- The next token, which has to be of a kind. It is taken in any case. -/
def expect (kind : TokenKind) : Parser Token := do
  let t ← next
  if t.kind = kind then return t else fail (.unexpectedToken t.kind kind) t

/-- Takes the next token if it is of a kind, and says whether it was. -/
def eat (kind : TokenKind) : Parser Bool := do
  let t ← peek
  if t.kind = kind then
    let _ ← next
    return true
  else return false

/-- A token for the end of a line. -/
def isNewline : Item → Bool
  | .token t => t.kind == .newline
  | .error _ => false

/-- Takes the newlines that come next. -/
def skipNewlines : Parser Unit := fun s =>
  (do let _ ← peek : Parser Unit) { s with items := s.items.dropWhile isNewline }

/-- The end of a statement: a newline, which is taken, or the end of the file. -/
def terminator : Parser Unit := do
  let t ← peek
  match t.kind with
  | .endOfFile => return
  | .newline =>
    let _ ← next
  | actual => fail (.unexpectedToken actual .newline) t

/-! ## Expressions -/

mutual

/-- An expression of operators that hold their left operand at least as tightly as `power`. -/
def expressionWithin : Nat → Nat → Parser Tree
  | 0, _ => exhausted
  | bound + 1, power => do
    let lhs ← operandWithin bound
    operatorsWithin bound power lhs

/-- An operand: a literal, a call or a group. -/
def operandWithin : Nat → Parser Tree
  | 0 => exhausted
  | bound + 1 => do
    let t ← next
    match t.kind with
    | .number => return .atom (.number t.text) t.line
    | .string => return .atom (.string t.text) t.line
    | .identifier => wordWithin bound t
    | .leftParen =>
      let inner ← expressionWithin bound 0
      let _ ← expect .rightParen
      return .group inner
    | .endOfFile => fail .unexpectedEnd t
    | actual => fail (.notAnExpression actual) t

/-- The operand that starts with a word: a call if a parenthesis follows, else the word itself. -/
def wordWithin : Nat → Token → Parser Tree
  | 0, _ => exhausted
  | bound + 1, word => do
    if ← eat .leftParen then
      let arguments ← argumentsWithin bound
      return .call word.text arguments word.line
    else return .atom (.word word.text) word.line

/-- The arguments of a call, up to and including the closing parenthesis. A word before a colon
    is a key. -/
def argumentsWithin : Nat → Parser TreeArguments
  | 0 => exhausted
  | bound + 1 => do
    let t ← peek
    match t.kind with
    | .rightParen =>
      let _ ← next
      return .nil
    | .endOfFile => fail .unexpectedEnd t
    | .identifier =>
      let word ← next
      if ← eat .colon then
        let value ← expressionWithin bound 0
        let rest ← argumentsWithin bound
        return .cons (some word.text) value rest
      else
        let lhs ← wordWithin bound word
        let value ← operatorsWithin bound 0 lhs
        let rest ← argumentsWithin bound
        return .cons none value rest
    | _ =>
      let value ← expressionWithin bound 0
      let rest ← argumentsWithin bound
      return .cons none value rest

/-- The operators that hold `lhs` at least as tightly as `power`, with their right operands. -/
def operatorsWithin : Nat → Nat → Tree → Parser Tree
  | 0, _, _ => exhausted
  | bound + 1, power, lhs => do
    let t ← peek
    match Operator.ofToken? t.kind with
    | none => return lhs
    | some operator =>
      if operator.powers.1 < power then return lhs
      else
        let _ ← next
        let rhs ← expressionWithin bound operator.powers.2
        operatorsWithin bound power (operator.join lhs rhs)

end

/-! ## Statements -/

/-- The value of a command argument. -/
def argumentValue : Parser Literal := do
  let t ← next
  match t.kind with
  | .number => return .number t.text
  | .string => return .string t.text
  | .identifier => return .word t.text
  | .endOfFile => fail .unexpectedEnd t
  | actual => fail (.notAValue actual) t

/-- The arguments of a command, put in behind the given ones. -/
def commandArgumentsWithin : Nat → Arguments → Parser Arguments
  | 0, _ => exhausted
  | bound + 1, arguments => do
    let t ← peek
    match t.kind with
    | .identifier =>
      let word ← next
      if ← eat .colon then
        let value ← argumentValue
        commandArgumentsWithin bound (arguments.insert word.text value)
      else commandArgumentsWithin bound (arguments.insert Arguments.defaultKey (.word word.text))
    | .number | .string =>
      let value ← argumentValue
      commandArgumentsWithin bound (arguments.insert Arguments.defaultKey value)
    | _ => return arguments

/-- The label of a jump, if an arrow comes next. -/
def jump : Parser (Option String) := do
  if ← eat .arrow then
    let label ← expect .identifier
    terminator
    return some label.text
  else return none

/-- A statement. -/
def statementWithin : Nat → Parser Statement
  | 0 => exhausted
  | bound + 1 => do
    let first ← next
    match first.kind with
    | .string =>
      terminator
      return .dialogue first.text first.line
    | .identifier =>
      let arguments ← commandArgumentsWithin bound .empty
      terminator
      return .command first.text arguments first.line
    | .guardMark =>
      let condition ← expressionWithin bound 0
      skipNewlines
      let body ← statementWithin bound
      skipNewlines
      let label ← jump
      return .conditional (.ofTree condition) body label first.line
    | .endOfFile => fail .unexpectedEnd first
    | actual => fail (.notAStatement actual) first

/-- The statements up to the end of the file, which is left in the stream. -/
def statementsWithin : Nat → Parser (List Statement)
  | 0 => exhausted
  | bound + 1 => do
    let first ← peek
    match first.kind with
    | .newline =>
      let _ ← next
      statementsWithin bound
    | .endOfFile => return []
    | _ =>
      let statement ← statementWithin bound
      let rest ← statementsWithin bound
      return statement :: rest

/-! ## Without a bound -/

/-- A bound that is enough for what is left of a stream. -/
def enough (s : Stream) : Nat := 2 * s.items.length + 4

/-- An expression. What follows it stays in the stream. -/
def expression : Parser Expression := fun s =>
  (do return .ofTree (← expressionWithin (enough s) 0) : Parser Expression) s

/-- A statement. -/
def statement : Parser Statement := fun s => statementWithin (enough s) s

/-- All statements that are left. -/
def program : Parser Program := fun s =>
  (do return ⟨← statementsWithin (enough s)⟩ : Parser Program) s

end Parser

/-! ## Whole scripts -/

/-- What a parser comes to, without the stream that is left. -/
def Reply.result {α : Type} : Reply α → Except ParseError α
  | ok value _ => .ok value
  | error e _ => .error e

/-- The stream that a parser leaves. -/
def Reply.rest {α : Type} : Reply α → Stream
  | ok _ rest => rest
  | error _ rest => rest

/-- The program that a script spells. -/
def Program.parse (source : String) : Except ParseError Program :=
  (Parser.program (Stream.ofString source)).result

/-- The expression that a text starts with. -/
def Expression.parse (source : String) : Except ParseError Expression :=
  (Parser.expression (Stream.ofString source)).result

end StageScript
