import StageScript.Run.Performance

set_option autoImplicit false

/-! # Recording stages

A recording stage touches nothing and remembers every act and every question in order. It answers
from a table of directory sizes, in which an unknown path counts as empty, and from a clock that
stands still. -/

namespace StageScript

/-- What happened on a stage that only remembers, and what it answers. -/
structure Recording where
  events : Array Event
  /-- Sizes of directories, the latest first. -/
  directories : List (String × Nat)
  time : Float

namespace Recording

/-- Nothing has happened, no directory is known, and it is midnight. -/
def empty : Recording := ⟨#[], [], 0.0⟩

/-- The stage with a directory of a size, in place of any of that path before. -/
def withDirectory (r : Recording) (path : String) (entries : Nat) : Recording :=
  { r with directories := (path, entries) :: r.directories }

/-- The stage with its clock at a time. -/
def withTime (r : Recording) (time : Float) : Recording := { r with time := time }

/-- The stage after one more event. -/
def record (r : Recording) (e : Event) : Recording := { r with events := r.events.push e }

/-- The number of entries of a directory. -/
def directorySize (r : Recording) (path : String) : Nat :=
  match r.directories.find? fun entry => entry.1 == path with
  | some entry => entry.2
  | none => 0

/-- The answer to a question. -/
def answer (r : Recording) : Query → Float
  | .directory path => Float.ofNat (r.directorySize path)
  | .clock => r.time

/-! ## Kinds of events -/

/-- The lines that were said. -/
def spoken (r : Recording) : List String :=
  r.events.toList.filterMap fun
    | .act (.say text) => some text
    | _ => none

/-- The diagnostics that were reported. -/
def diagnostics (r : Recording) : List Diagnostic :=
  r.events.toList.filterMap fun
    | .act (.report d) => some d
    | _ => none

/-- Whether an event reaches the machine. -/
def isAction : Event → Bool
  | .act (.blockInput _) => true
  | .act (.openPath _) => true
  | _ => false

/-- The events that reached the machine. -/
def actions (r : Recording) : List Event := r.events.toList.filter isAction

/-- Whether an event asks for the size of a directory. -/
def isDirectoryQuery : Event → Bool
  | .query (.directory _) => true
  | _ => false

/-- How often the size of a directory was asked for. -/
def directoryQueries (r : Recording) : Nat := r.events.toList.countP isDirectoryQuery

end Recording

/-! ## Performances -/

namespace Performance

/-- A performance on a recording stage. -/
def onRecording {α : Type} : Performance α → Recording → α × Recording
  | done value, r => (value, r)
  | act a next, r => next.onRecording (r.record (.act a))
  | note _ next, r => next.onRecording r
  | ask q next, r => (next (r.answer q)).onRecording (r.record (.query q))

/-- Two performances in a row are one performance. -/
theorem onRecording_bind {α β : Type} (p : Performance α) (f : α → Performance β)
    (r : Recording) :
    (p.bind f).onRecording r =
      (f (p.onRecording r).1).onRecording (p.onRecording r).2 := by
  induction p generalizing r with
  | done value => rfl
  | act a next ih => simp [Performance.bind, onRecording, ih]
  | note n next ih => simp [Performance.bind, onRecording, ih]
  | ask q next ih => simp [Performance.bind, onRecording, ih]

/-- The records that a performance notes down on a recording stage and that a log keeps. -/
def recordsOn {α : Type} (filter : LogFilter) : Performance α → Recording → List LogRecord
  | done _, _ => []
  | act _ next, r => next.recordsOn filter r
  | note n next, r =>
    if filter.keeps n then n :: next.recordsOn filter r else next.recordsOn filter r
  | ask q next, r => (next (r.answer q)).recordsOn filter r

end Performance

end StageScript
