import StageScript.Text.Terminal

set_option autoImplicit false

/-! # Log records

What a run notes down beside what it does. Each record has a level, and a log keeps the records up
to a level of detail that is chosen beforehand. -/

namespace StageScript

/-- How much a record matters, the most important first. -/
inductive LogLevel where
  | error | warn | info | debug
  deriving DecidableEq

namespace LogLevel

/-- The rank of a level: the more detail, the higher. -/
def rank : LogLevel → Nat
  | error => 1
  | warn => 2
  | info => 3
  | debug => 4

/-- The name of a level in a log. -/
def name : LogLevel → String
  | error => "ERROR"
  | warn => "WARN"
  | info => "INFO"
  | debug => "DEBUG"

end LogLevel

/-- A noted message. -/
structure LogRecord where
  level : LogLevel
  message : String
  deriving DecidableEq

/-- The record as a log has it: a line, without what would steer a terminal. An unfinished control
    sequence in the message may swallow the newline. -/
def LogRecord.text (r : LogRecord) : String :=
  Text.plain (r.level.name ++ " " ++ r.message ++ "\n")

/-- The level of detail that a log keeps; none keeps nothing. -/
abbrev LogFilter := Option LogLevel

/-- Whether a log keeps a record. -/
def LogFilter.keeps (filter : LogFilter) (r : LogRecord) : Bool :=
  match filter with
  | some level => r.level.rank ≤ level.rank
  | none => false

end StageScript
