import StageScript.Run.Performance
import StageScript.Syntax.Expression

set_option autoImplicit false

/-! # Built-in functions

The table of the functions that an expression may call. A function asks the stage one question and
has the answer for its value. It looks at one argument at most: the first one under its parameter,
or, if there is none, the first of all. -/

namespace StageScript

/-- An entry of the function table. -/
structure BuiltIn where
  name : String
  /-- The key of the argument that the function looks at, if it looks at one. -/
  parameter : Option String
  /-- The question, given the text of that argument. -/
  query : Option String → Query

namespace BuiltIn

/-- The time of day. -/
def currentTime : BuiltIn := ⟨"現在時刻", none, fun _ => .clock⟩

/-- The number of entries of a directory. -/
def directorySize : BuiltIn := ⟨"ファイル", some "パス", fun path => .directory (path.getD "")⟩

/-- All functions. -/
def table : List BuiltIn := [currentTime, directorySize]

/-- The function of a name. -/
def lookup? (name : String) : Option BuiltIn := table.find? fun f => f.name == name

/-- The argument that the function looks at. -/
def select? (f : BuiltIn) (arguments : List NodeArgument) : Option NodeArgument :=
  match f.parameter with
  | none => none
  | some parameter => (arguments.find? fun a => a.key == some parameter).or arguments.head?

/-- The call of the function with the text of its argument. -/
def call (f : BuiltIn) (text : Option String) : Performance Float := .query (f.query text)

end BuiltIn

end StageScript
