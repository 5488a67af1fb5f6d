import StageScript.Decimal.Layout
import StageScript.Decimal.Reader
import StageScript.Syntax.Literal
import StageScript.Text.Space
import StageScript.Text.Width

set_option autoImplicit false

/-! # Values

An expression has a number, a text or a truth value for its value. A comparison takes any value as
a number and a connective takes any value as a truth value. Only a text can fail to be one; it then
counts as zero or as false, and the failure is reported. -/

namespace StageScript

/-- The value of an expression. -/
inductive Value where
  | number (x : Float)
  | text (s : String)
  | truth (b : Bool)

/-- A text that is not what it is taken for. -/
inductive CoercionError where
  | notANumber (s : String)
  | notABoolean (s : String)
  deriving DecidableEq

/-- What is wrong, and what counts instead. -/
def CoercionError.message : CoercionError → String
  | notANumber s => s!"`{s}` is not a number, using 0"
  | notABoolean s => s!"`{s}` is not a boolean, using false"

namespace Value

/-- The value as text. -/
def display : Value → String
  | number x => Decimal.textOf x
  | text s => s
  | truth b => if b then "true" else "false"

/-- The value of a literal: a number if it is written as one and can be read, else its text, which
    for a string is what stands between the marks. -/
def ofLiteral (l : Literal) : Value :=
  match l.kind with
  | .number =>
    match Decimal.read? (Text.foldWidth l.text) with
    | some x => number x
    | none => text l.text
  | .string => text ((Text.unmark? l.text).getD l.text)
  | .word => text l.text

/-! ## Numbers -/

/-- The number that a text spells, in either width and with blanks around it. -/
def readNumber? (s : String) : Option Float := Decimal.read? (Text.foldWidth (Text.trim s))

/-- The value taken as a number. -/
def asNumber : Value → Except CoercionError Float
  | number x => .ok x
  | truth b => .ok (if b then 1.0 else 0.0)
  | text s =>
    match readNumber? s with
    | some x => .ok x
    | none => .error (.notANumber s)

/-- The value taken as a number, with zero for what is none. -/
def toNumber (v : Value) : Float := v.asNumber.toOption.getD 0.0

/-! ## Truth values -/

/-- The truth value that a text spells, in any ASCII case and with blanks around it. -/
def readTruth? (s : String) : Option Bool :=
  let word := (Text.trim s).toList.map Char.toLower
  if word == "true".toList then some true
  else if word == "false".toList then some false
  else none

/-- The value taken as a truth value. Every number but zero is true. -/
def asBool : Value → Except CoercionError Bool
  | truth b => .ok b
  | number x => .ok (x != 0.0)
  | text s =>
    match readTruth? s with
    | some b => .ok b
    | none => .error (.notABoolean s)

/-- The value taken as a truth value, with false for what is none. -/
def toBool (v : Value) : Bool := v.asBool.toOption.getD false

end Value

end StageScript
