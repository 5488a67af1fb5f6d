import StageScript.Token

set_option autoImplicit false

/-! # Operators

Conditions compare numbers and connect truth values. A pair of binding powers says how tightly an
operator holds the operands on its left and on its right: comparisons hold tightest, then `and`,
then `or`, and since the right power is always the larger one, equal operators group to the left. -/

namespace StageScript

/-! ## Comparisons -/

/-- A comparison of two numbers. -/
inductive Comparison where
  | equal | notEqual | less | lessEqual | greater | greaterEqual
  deriving DecidableEq

namespace Comparison

/-- The sign of a comparison in listings. -/
def symbol : Comparison → String
  | equal => "="
  | notEqual => "!="
  | less => "<"
  | lessEqual => "<="
  | greater => ">"
  | greaterEqual => ">="

/-- Whether the comparison holds. A NaN differs from every number and has no order. -/
def holds (c : Comparison) (x y : Float) : Bool :=
  match c with
  | equal => x == y
  | notEqual => x != y
  | less => x < y
  | lessEqual => x ≤ y
  | greater => y < x
  | greaterEqual => y ≤ x

/-- All comparisons. -/
def all : List Comparison := [equal, notEqual, less, lessEqual, greater, greaterEqual]

/-- The comparison with the given sign. -/
def ofSymbol? (s : String) : Option Comparison := all.find? fun c => c.symbol == s

/-- A comparison is found under its own sign. -/
theorem ofSymbol?_symbol (c : Comparison) : ofSymbol? c.symbol = some c := by
  cases c <;> decide

end Comparison

/-! ## Connectives -/

/-- A connective of two truth values. -/
inductive Connective where
  | conjunction
  | disjunction
  deriving DecidableEq

namespace Connective

/-- The word for a connective in listings. -/
def symbol : Connective → String
  | conjunction => "and"
  | disjunction => "or"

/-- The connection of two values that are both known. -/
def combine (c : Connective) (x y : Bool) : Bool :=
  match c with
  | conjunction => x && y
  | disjunction => x || y

/-- All connectives. -/
def all : List Connective := [conjunction, disjunction]

/-- The connective with the given word. -/
def ofSymbol? (s : String) : Option Connective := all.find? fun c => c.symbol == s

/-- A connective is found under its own word. -/
theorem ofSymbol?_symbol (c : Connective) : ofSymbol? c.symbol = some c := by
  cases c <;> decide

end Connective

/-! ## Binding -/

/-- An operator between two operands. -/
inductive Operator where
  | comparison (c : Comparison)
  | connective (c : Connective)
  deriving DecidableEq

namespace Operator

/-- How tightly an operator holds its left and its right operand. -/
def powers : Operator → Nat × Nat
  | comparison _ => (9, 10)
  | connective .conjunction => (5, 6)
  | connective .disjunction => (3, 4)

/-- The operator that a token stands for. -/
def ofToken? : TokenKind → Option Operator
  | .equal => some (comparison .equal)
  | .notEqual => some (comparison .notEqual)
  | .less => some (comparison .less)
  | .lessEqual => some (comparison .lessEqual)
  | .greater => some (comparison .greater)
  | .greaterEqual => some (comparison .greaterEqual)
  | .conjunction => some (connective .conjunction)
  | .disjunction => some (connective .disjunction)
  | _ => none

/-- The right operand is held more tightly than the left one. -/
theorem powers_increase (o : Operator) : o.powers.1 < o.powers.2 := by
  rcases o with _ | c
  · simp [powers]
  · cases c <;> simp [powers]

end Operator

end StageScript
