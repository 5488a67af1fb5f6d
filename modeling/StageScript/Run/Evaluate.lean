import StageScript.Run.Function
import StageScript.Text.Quoted

set_option autoImplicit false

/-! # Evaluating expressions

Both operands of an operator are evaluated, the left one first, and only then taken as numbers or
truth values, again the left one first: nothing is skipped. A call of an unknown function is
reported and counts as zero; of the arguments of a known one only the selected one is evaluated. -/

namespace StageScript

/-! ## Coercions -/

/-- The value as a number. A value that is none is reported and counts as zero. -/
def Value.coerceNumber (v : Value) (line : Nat) : Performance Float :=
  match v.asNumber with
  | .ok x => return x
  | .error error => do
    .report (.coercion error line)
    return 0.0

/-- The value as a truth value. A value that is none is reported and counts as false. -/
def Value.coerceBool (v : Value) (line : Nat) : Performance Bool :=
  match v.asBool with
  | .ok b => return b
  | .error error => do
    .report (.coercion error line)
    return false

/-! ## Operators and calls -/

/-- A comparison of two values. -/
def Comparison.apply (c : Comparison) (lhs rhs : Value) (line : Nat) : Performance Value := do
  let x ← lhs.coerceNumber line
  let y ← rhs.coerceNumber line
  return .truth (c.holds x y)

/-- A connection of two values. -/
def Connective.apply (c : Connective) (lhs rhs : Value) (line : Nat) : Performance Value := do
  let x ← lhs.coerceBool line
  let y ← rhs.coerceBool line
  return .truth (c.combine x y)

/-- How a log shows the text of an argument. -/
def BuiltIn.argumentNote : Option String → String
  | some text => "Some(" ++ Text.quote text ++ ")"
  | none => "None"

/-- A known function applied to the text of its argument. -/
def BuiltIn.apply (f : BuiltIn) (text : Option String) (line : Nat) : Performance Value := do
  .debug s!"[line {line}] calling {f.name} with {argumentNote text}"
  return .number (← f.call text)

/-- A name that no function has. -/
def BuiltIn.applyUnknown (name : String) (line : Nat) : Performance Value := do
  .report (.unknownFunction name line)
  return .number 0.0

/-! ## Expressions -/

namespace Expression

/-- The value of the node at a position, found within `bound` levels. -/
def evaluateWithin (e : Expression) : Nat → Nat → Performance Value
  | 0, _ => return .number 0.0
  | bound + 1, position =>
    match e.nodes[position]? with
    | none => return .number 0.0
    | some (.atom literal _) => return .ofLiteral literal
    | some (.group inner) => e.evaluateWithin bound inner
    | some (.comparison operator lhs rhs) => do
      let left ← e.evaluateWithin bound lhs
      let right ← e.evaluateWithin bound rhs
      operator.apply left right (e.lineAt position)
    | some (.connective operator lhs rhs) => do
      let left ← e.evaluateWithin bound lhs
      let right ← e.evaluateWithin bound rhs
      operator.apply left right (e.lineAt position)
    | some (.call name arguments callLine) =>
      match BuiltIn.lookup? name with
      | none => BuiltIn.applyUnknown name callLine
      | some function =>
        match function.select? arguments with
        | none => function.apply none callLine
        | some argument => do
          let value ← e.evaluateWithin bound argument.value
          function.apply (some value.display) callLine

/-- The value of an expression. -/
def evaluate (e : Expression) : Performance Value := e.evaluateWithin e.nodes.size e.root

end Expression

end StageScript
