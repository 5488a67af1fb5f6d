import StageScript.Token.Scanner

set_option autoImplicit false

/-! # Reading one item at a time

A lexer has the characters that are left and their place. A call goes over blanks and comments and
gives the item behind them; at the end of the text every call gives the end of the file. A reader
has a lexer and keeps what it has looked at, be it a token or an error, until that is taken. -/

namespace StageScript

/-! ## Lexers -/

/-- The characters that are still to be read. -/
structure Lexer where
  /-- Where the first of them stands. -/
  place : Scanner.Place
  chars : List Char

namespace Lexer

/-- The lexer of a text. -/
def ofText (text : List Char) : Lexer := ⟨.start, text⟩

/-- The next item of the characters that stand at a place, the first `skip` of which belong to a
    gap before them, and the lexer behind it. -/
def nextAt : Nat → Scanner.Place → List Char → Item × Lexer
  | _, p, [] =>
    (.token ⟨.endOfFile, Span.between p.offset p.offset, p.line, ""⟩, ⟨p, []⟩)
  | skip + 1, p, c :: cs => nextAt skip (p.after c) cs
  | 0, p, c :: cs =>
    let (s, more) := Scanner.shape c cs
    let lexeme := c :: cs.take more
    match s.item? p lexeme with
    | some item => (item, ⟨p.afterAll lexeme, cs.drop more⟩)
    | none => nextAt more (p.after c) cs

/-- The next item and the lexer behind it. -/
def next (l : Lexer) : Item × Lexer := nextAt 0 l.place l.chars

/-- The lexer behind the next item. -/
def behind (l : Lexer) : Lexer := l.next.2

/-- The items that the lexer still yields, laid out. -/
def stream (l : Lexer) : Stream := Scanner.streamAt l.place l.chars

end Lexer

/-! ## Readers -/

/-- A lexer behind an item that has been looked at and not taken, if there is one. -/
structure Reader where
  lexer : Lexer
  lookahead : Option Item

/-- What can be asked of a reader. -/
inductive Reader.Call where
  /-- Looks at the next item. -/
  | peek
  /-- Takes the next item. -/
  | next
  deriving DecidableEq

namespace Reader

/-- The reader of a text. -/
def ofText (text : List Char) : Reader := ⟨.ofText text, none⟩

/-- The next item, kept for later. -/
def peek (r : Reader) : Item × Reader :=
  match r.lookahead with
  | some x => (x, r)
  | none => (r.lexer.next.1, ⟨r.lexer.behind, some r.lexer.next.1⟩)

/-- The next item, taken. -/
def next (r : Reader) : Item × Reader :=
  match r.lookahead with
  | some x => (x, ⟨r.lexer, none⟩)
  | none => (r.lexer.next.1, ⟨r.lexer.behind, none⟩)

/-- The answer to a call and the reader after it. -/
def answer (r : Reader) : Call → Item × Reader
  | .peek => r.peek
  | .next => r.next

/-- The answers to some calls. -/
def answers (r : Reader) : List Call → List Item
  | [] => []
  | c :: calls => (r.answer c).1 :: (r.answer c).2.answers calls

/-- The reader after some calls. -/
def after (r : Reader) (calls : List Call) : Reader := calls.foldl (fun r c => (r.answer c).2) r

end Reader

end StageScript
