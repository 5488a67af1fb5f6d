import StageScript.Stage.Clock
import StageScript.Stage.Folder
import StageScript.Stage.Launch
import StageScript.Stage.Recording

set_option autoImplicit false

/-! # Composed stages

A host takes each concern of a performance to a part of its own: dialogue, actions, questions and
diagnostics. Each part either records, or does what it does in earnest: prints lines, acts on the
machine or only says so, looks into folders, or turns diagnostics into warnings in the log. -/

namespace StageScript

/-! ## Parts -/

/-- Where dialogue goes. -/
inductive DialogueSink where
  | recorder (r : Recording)
  /-- Prints every line, with the speaker in front if there is one. -/
  | printer (speaker : Option String) (lines : Array String)

/-- Where actions go. -/
inductive ActionSink where
  | recorder (r : Recording)
  /-- Notes what would be done. -/
  | dryRun
  /-- Acts on the machine, and notes what comes of it. -/
  | machine (launcher : Launcher := .none)

/-- Where questions go. -/
inductive Environment where
  | recorder (r : Recording)
  /-- Looks into a folder and at a clock. -/
  | machine (folder : Entry) (time : Float)

/-- Where diagnostics go. -/
inductive DiagnosticSink where
  | recorder (r : Recording)
  /-- Notes every diagnostic as a warning. -/
  | log

/-! ## Messages -/

/-- Why mouse input stays as it is. -/
inductive InputError where
  /-- The system refuses to block input. -/
  | rejected
  /-- The system has no way to block input. -/
  | unsupported
  deriving DecidableEq

/-- Why mouse input stays as it is, in a sentence. -/
def InputError.message : InputError → String
  | rejected => "BlockInput failed (it needs an elevated process)"
  | unsupported => "Blocking input is not supported on this platform"

/-- Blocking or releasing mouse input on this machine. -/
def blockMachineInput (_blocked : Bool) : Except InputError Unit := .error .unsupported

/-- What is noted when mouse input is blocked or released on this machine. -/
def machineInputRecord (blocked : Bool) : LogRecord :=
  match blockMachineInput blocked with
  | .ok _ => ⟨.debug, s!"input blocked: {blocked}"⟩
  | .error .unsupported => ⟨.warn, InputError.unsupported.message⟩
  | .error e => ⟨.error, e.message⟩

/-- What is noted when a path has been handed to the program that opens it. -/
def launchRecord (path : String) (outcome : Except String Unit) : LogRecord :=
  match outcome with
  | .ok _ => ⟨.debug, s!"opened {path}"⟩
  | .error reason => ⟨.error, s!"{Launch.failureMessage path}: {reason}"⟩

/-- What is noted when a directory cannot be read. -/
def unreadableRecord (path reason : String) : LogRecord :=
  ⟨.debug, s!"cannot read directory {path}: {reason}"⟩

/-- A line of dialogue as it is printed. -/
def printedLine (speaker : Option String) (text : String) : String :=
  match speaker with
  | some name => s!"【{name}】{text}"
  | none => text

/-! ## Hosts -/

/-- A stage with a part for each concern, and the log of what its parts note. -/
structure Host where
  dialogue : DialogueSink
  actions : ActionSink
  environment : Environment
  diagnostics : DiagnosticSink
  filter : LogFilter
  records : Array LogRecord

namespace Host

/-- Notes a record, if the log keeps it. -/
def note (h : Host) (r : LogRecord) : Host :=
  if h.filter.keeps r then { h with records := h.records.push r } else h

/-- Takes a line to the dialogue part. -/
def say (h : Host) (text : String) : Host :=
  match h.dialogue with
  | .recorder r => { h with dialogue := .recorder (r.record (.act (.say text))) }
  | .printer speaker lines =>
    { h with dialogue := .printer speaker (lines.push (printedLine speaker text)) }

/-- Takes blocking and releasing to the action part. -/
def blockInput (h : Host) (blocked : Bool) : Host :=
  match h.actions with
  | .recorder r => { h with actions := .recorder (r.record (.act (.blockInput blocked))) }
  | .dryRun => h.note ⟨.info, s!"[dry run] set input blocked: {blocked}"⟩
  | .machine _ => h.note (machineInputRecord blocked)

/-- Takes opening to the action part. A machine does not wait for the program that it starts. -/
def openPath (h : Host) (path : String) : Host :=
  match h.actions with
  | .recorder r => { h with actions := .recorder (r.record (.act (.openPath path))) }
  | .dryRun => h.note ⟨.info, s!"[dry run] open {path}"⟩
  | .machine launcher => h.note (launchRecord path (launcher (.opener path)))

/-- Takes a diagnostic to its part. -/
def report (h : Host) (d : Diagnostic) : Host :=
  match h.diagnostics with
  | .recorder r => { h with diagnostics := .recorder (r.record (.act (.report d))) }
  | .log => h.note ⟨.warn, d.message⟩

/-- Takes an act to the part that it concerns. -/
def perform (h : Host) : Act → Host
  | .say text => h.say text
  | .blockInput blocked => h.blockInput blocked
  | .openPath path => h.openPath path
  | .report d => h.report d

/-- The size of a directory that was looked into; one that cannot be read counts as empty. -/
def directoryAnswer (h : Host) (path : String) : Except String Nat → Float × Host
  | .ok entries => (Float.ofNat entries, h)
  | .error reason => (0.0, h.note (unreadableRecord path reason))

/-- Takes a question to the environment. -/
def answer (h : Host) (q : Query) : Float × Host :=
  match h.environment with
  | .recorder r => (r.answer q, { h with environment := .recorder (r.record (.query q)) })
  | .machine folder time =>
    match q with
    | .directory path =>
      h.directoryAnswer path ((folder.countAt path).mapError PathError.message)
    | .clock => (time, h)

/-- The stage without the lines it has printed and the records it has noted. -/
def emptied (h : Host) : Host :=
  let dialogue :=
    match h.dialogue with
    | .recorder r => .recorder r
    | .printer speaker _ => .printer speaker #[]
  { h with dialogue := dialogue, records := #[] }

end Host

/-- A performance on a composed stage. -/
def Performance.onHost {α : Type} : Performance α → Host → α × Host
  | done value, h => (value, h)
  | act a next, h => next.onHost (h.perform a)
  | note r next, h => next.onHost (h.note r)
  | ask q next, h => (next (h.answer q).1).onHost (h.answer q).2

end StageScript
