import StageScript.Run.Command
import StageScript.Run.Evaluate
import StageScript.Syntax.Parser
import StageScript.Syntax.SExpression

set_option autoImplicit false

/-! # Carrying out statements

The statements of a script are carried out once, from the first to the last. A statement under a
guard that is not met is skipped, a command of an unknown name is ignored, and a statement that
fails is reported; in every case the run goes on. A tally counts how the statements came out. -/

namespace StageScript

/-! ## Outcomes -/

/-- How a statement that did not fail came out. -/
inductive Outcome where
  | executed
  | skipped
  | ignored
  deriving DecidableEq

/-- How many statements came out how. -/
structure Tally where
  executed : Nat
  skipped : Nat
  ignored : Nat
  failed : Nat
  deriving DecidableEq

namespace Tally

/-- No statements. -/
def zero : Tally := ⟨0, 0, 0, 0⟩

/-- The number of statements. -/
def total (t : Tally) : Nat := t.executed + t.skipped + t.ignored + t.failed

/-- The counts in a sentence. -/
def message (t : Tally) : String :=
  s!"{t.total} statements: {t.executed} executed, {t.skipped} skipped, " ++
    s!"{t.ignored} ignored, {t.failed} failed"

/-- The tally with one more statement. -/
def count (t : Tally) : Except Failure Outcome → Tally
  | .ok .executed => { t with executed := t.executed + 1 }
  | .ok .skipped => { t with skipped := t.skipped + 1 }
  | .ok .ignored => { t with ignored := t.ignored + 1 }
  | .error _ => { t with failed := t.failed + 1 }

/-- One more statement is one more in total. -/
theorem total_count (t : Tally) (result : Except Failure Outcome) :
    (t.count result).total = t.total + 1 := by
  rcases result with _ | outcome
  · simp only [count, total]; omega
  · cases outcome <;> simp only [count, total] <;> omega

end Tally

/-! ## Statements -/

namespace Statement

/-- Says a line of dialogue without its marks. -/
def performDialogue (text : String) (line : Nat) : Performance (Except Failure Outcome) :=
  match Text.unmark? text with
  | none => return .error ⟨.malformedDialogue text, line⟩
  | some spoken => do
    .debug s!"[line {line}] dialogue: {spoken}"
    .perform (.say spoken)
    return .ok .executed

/-- Notes the arguments that a command does not take. -/
def noteUnaccepted (known : Command) (line : Nat) : List String → Performance Unit
  | [] => return
  | key :: keys => do
    if !known.accepts key then
      .debug s!"[line {line}] {known.name} ignores the argument `{key}`"
    noteUnaccepted known line keys

/-- Carries out a command that is in the table. -/
def performKnown (known : Command) (call : CommandCall) (line : Nat) :
    Performance (Except Failure Outcome) :=
  match known.check call with
  | .error kind => return .error ⟨kind, line⟩
  | .ok _ => do
    noteUnaccepted known line call.keys
    .debug s!"[line {line}] command: {known.name}"
    match known.action call with
    | .error kind => return .error ⟨kind, line⟩
    | .ok act =>
      .perform act
      return .ok .executed

/-- Carries out a command. -/
def performCommand (name : String) (arguments : Arguments) (line : Nat) :
    Performance (Except Failure Outcome) :=
  match Command.lookup? name with
  | none => do
    .report (.unknownCommand name line)
    return .ok .ignored
  | some known => performKnown known (.ofArguments name arguments) line

/-- Whether a guard is met. -/
def performGuard (condition : Expression) (line : Nat) : Performance Bool := do
  let value ← condition.evaluate
  let met ← value.coerceBool line
  .debug s!"[line {line}] condition {condition.sexpr} -> {met}"
  return met

/-- Leaves a guarded statement out. -/
def performSkip (jump : Option String) (line : Nat) : Performance (Except Failure Outcome) :=
  match jump with
  | none => return .ok .skipped
  | some label => do
    .report (.ignoredJump label line)
    return .ok .skipped

/-- Carries out a statement. -/
def perform : Statement → Performance (Except Failure Outcome)
  | dialogue text line => performDialogue text line
  | command name arguments line => performCommand name arguments line
  | conditional condition body jump line => do
    if ← performGuard condition line then body.perform else performSkip jump line

end Statement

/-! ## Programs -/

namespace Program

/-- Carries out statements after others that came out as tallied. -/
def performFrom (tally : Tally) : List Statement → Performance Tally
  | [] => return tally
  | statement :: rest => do
    let result ← statement.perform
    match result with
    | .error failure => .report (.failed failure)
    | .ok _ => pure ()
    performFrom (tally.count result) rest

/-- Carries out a program and notes its tally. -/
def perform (p : Program) : Performance Tally := do
  let tally ← performFrom .zero p.statements
  .info tally.message
  return tally

end Program

/-- Reads a script and carries it out. -/
def Performance.ofSource (source : String) : Except ParseError (Performance Tally) :=
  (Program.parse source).map Program.perform

end StageScript
