import StageScript.Text.Space
import StageScript.Text.Width
import StageScript.Token.Stream

set_option autoImplicit false

/-! # Reading tokens

At every character the scanner decides what starts there and how many of the characters after it
belong to it, takes these, and goes on behind them. What starts at a character is a token, a
lexical error, or a gap: a blank or a comment. Blanks are the space, the tab, the carriage return
and the full-width space; a comment runs up to the end of its line and leaves the newline alone. -/

namespace StageScript

/-! ## Character classes -/

namespace Scanner

/-- Separates tokens and is none. -/
def isGap (c : Char) : Bool := c == ' ' || c == '\t' || c == '\r' || c == '\u3000'

/-- Starts a comment. -/
def isCommentMark (c : Char) : Bool := c == '#' || c == '＃'

/-- An equal sign of either width. -/
def isEqualSign (c : Char) : Bool := c == '=' || c == '＝'

/-- The characters that have a meaning of their own and cannot be part of a word. -/
def reserved : List Char :=
  ['(', ')', '（', '）', ':', '：', '=', '＝', '!', '！', '<', '＜', '>', '＞', '≠', '≤', '≥', '※', '→',
    '#', '＃', '「', '」']

/-- A character that a word can be made of. -/
def isWordChar (c : Char) : Bool :=
  !Text.isSpace c && !Text.isControl c && !reserved.contains c

/-! ## Lengths -/

/-- The number of characters up to and including the mark that closes the `depth` open ones, if it
    stands on this line. -/
def closing? : Nat → List Char → Option Nat
  | _, [] => none
  | depth, c :: cs =>
    if c == '\n' then none
    else if c == '「' then (closing? (depth + 1) cs).map (· + 1)
    else if c == '」' then
      if depth ≤ 1 then some 1 else (closing? (depth - 1) cs).map (· + 1)
    else (closing? depth cs).map (· + 1)

/-- The number of characters left on the line. -/
def restOfLine (cs : List Char) : Nat := (cs.takeWhile (· != '\n')).length

/-- The number of characters of a fraction: a point and at least one digit, or nothing. -/
def fractionLength : List Char → Nat
  | point :: digit :: cs =>
    if Text.isPoint point && Text.isDigit digit then 2 + (cs.takeWhile Text.isDigit).length else 0
  | _ => 0

/-- The number of characters by which a number goes on after its first digit. -/
def numberLength (cs : List Char) : Nat :=
  (cs.takeWhile Text.isDigit).length + fractionLength (cs.dropWhile Text.isDigit)

/-- One if an equal sign comes next. -/
def equalLength : List Char → Nat
  | c :: _ => if isEqualSign c then 1 else 0
  | [] => 0

/-! ## Shapes -/

/-- What starts at a character. -/
inductive Shape where
  | gap
  | token (kind : TokenKind)
  | error (kind : LexicalErrorKind)
  deriving DecidableEq

/-- A comparison sign that may have an equal sign after it. -/
def comparison (plain withEqual : Shape) (rest : List Char) : Shape × Nat :=
  if equalLength rest == 1 then (withEqual, 1) else (plain, 0)

/-- What starts at `c`, and how many of the characters after it belong to it. -/
def shape (c : Char) (rest : List Char) : Shape × Nat :=
  if c == '\n' then (.token .newline, 0)
  else if isCommentMark c then (.gap, restOfLine rest)
  else if isGap c then (.gap, 0)
  else if c == '(' || c == '（' then (.token .leftParen, 0)
  else if c == ')' || c == '）' then (.token .rightParen, 0)
  else if c == ':' || c == '：' then (.token .colon, 0)
  else if c == '※' then (.token .guardMark, 0)
  else if c == '→' then (.token .arrow, 0)
  else if c == '≠' then (.token .notEqual, 0)
  else if c == '≤' then (.token .lessEqual, 0)
  else if c == '≥' then (.token .greaterEqual, 0)
  else if isEqualSign c then comparison (.token .equal) (.token .equal) rest
  else if c == '!' || c == '！' then comparison (.error (.unrecognized c)) (.token .notEqual) rest
  else if c == '<' || c == '＜' then comparison (.token .less) (.token .lessEqual) rest
  else if c == '>' || c == '＞' then comparison (.token .greater) (.token .greaterEqual) rest
  else if c == '「' then
    match closing? 1 rest with
    | some n => (.token .string, n)
    | none => (.error .unclosedString, restOfLine rest)
  else if Text.isDigit c then (.token .number, numberLength rest)
  else if isWordChar c then
    let more := rest.takeWhile isWordChar
    (.token (TokenKind.ofWord (String.ofList (c :: more))), more.length)
  else (.error (.unrecognized c), 0)

/-! ## Places -/

/-- Where a character stands. -/
structure Place where
  /-- The number of bytes before it. -/
  offset : Nat
  /-- One more than the number of newlines before it. -/
  line : Nat
  deriving DecidableEq

/-- The place of the first character. -/
def Place.start : Place := ⟨0, 1⟩

/-- The place after a character. -/
def Place.after (p : Place) (c : Char) : Place :=
  ⟨p.offset + c.utf8Size, if c == '\n' then p.line + 1 else p.line⟩

/-- The place after some characters. -/
def Place.afterAll (p : Place) (cs : List Char) : Place := cs.foldl Place.after p

/-! ## Scanning -/

/-- The item that some characters at a place make up; a gap makes up none. -/
def Shape.item? (s : Shape) (p : Place) (lexeme : List Char) : Option Item :=
  let span := Span.between p.offset (p.offset + Text.byteCount lexeme)
  match s with
  | .gap => none
  | .token kind => some (.token ⟨kind, span, p.line, String.ofList lexeme⟩)
  | .error kind => some (.error ⟨kind, span, p.line⟩)

/-- The items of the characters that stand at a place, the first `skip` of which belong to an item
    before them. -/
def itemsAt : Nat → Place → List Char → List Item
  | _, _, [] => []
  | skip + 1, p, c :: cs => itemsAt skip (p.after c) cs
  | 0, p, c :: cs =>
    let (s, more) := shape c cs
    match s.item? p (c :: cs.take more) with
    | some item => item :: itemsAt more (p.after c) cs
    | none => itemsAt more (p.after c) cs

/-- Skipped characters only move the place. -/
theorem itemsAt_skip (skip : Nat) (p : Place) (cs : List Char) :
    itemsAt skip p cs = itemsAt 0 (p.afterAll (cs.take skip)) (cs.drop skip) := by
  induction cs generalizing skip p with
  | nil => cases skip <;> rfl
  | cons c cs ih =>
    cases skip with
    | zero => rfl
    | succ skip => simpa [itemsAt, Place.afterAll] using ih skip (p.after c)

/-- The stream of items of the characters that stand at a place. -/
def streamAt (p : Place) (cs : List Char) : Stream :=
  let stop := p.afterAll cs
  ⟨itemsAt 0 p cs, Span.between stop.offset stop.offset, stop.line⟩

end Scanner

/-- The stream of items of a script. -/
def Stream.ofText (text : List Char) : Stream := Scanner.streamAt Scanner.Place.start text

/-- The stream of items of a script. -/
def Stream.ofString (source : String) : Stream := Stream.ofText source.toList

end StageScript
