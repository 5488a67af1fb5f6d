import StageScript.CommandLine.Session
import Std.Time.Zoned

set_option autoImplicit false

/-! # The program

Reads the script and the folders that it asks about, looks at the clock, and prints what a session
comes up with as it goes along. -/

namespace StageScript.Console

/-- What the operating system says about a failure. -/
def reason : IO.Error → String
  | .noFileOrDirectory .. => PathError.notFound.message
  | .inappropriateType .. => PathError.notADirectory.message
  | e => toString e

/-- The number of entries of a directory. -/
def countEntries (path : String) : IO (Except String Nat) := do
  try
    return .ok (← (← IO.FS.realPath path).readDir).size
  catch e => return .error (reason e)

/-- The time of day. -/
def currentTime : IO Float := do
  let now ← Std.Time.PlainDateTime.now
  return clockNumber now.hour.val.toNat now.minute.val.toNat

/-- Prints what a stage has come up with, and gives it back without that. -/
def flush (h : Host) : IO Host := do
  (Session.printed h).forM IO.println
  h.records.toList.forM fun r => IO.eprint r.text
  return h.emptied

/-- Answers a question from the machine. -/
def answer (h : Host) : Query → IO (Float × Host)
  | .directory path => return h.directoryAnswer path (← countEntries path)
  | .clock => return (← currentTime, h)

/-- Carries out a performance. -/
def carryOut {α : Type} : Performance α → Host → IO α
  | .done value, _ => return value
  | .act a next, h => do carryOut next (← flush (h.perform a))
  | .note r next, h => do carryOut next (← flush (h.note r))
  | .ask q next, h => do
    let (x, h) ← answer h q
    carryOut (next x) (← flush h)

/-- Prints a transcript. -/
def printTranscript (t : Transcript) : IO UInt32 := do
  IO.print t.outText
  t.err.forM IO.eprintln
  return t.code.toUInt32

/-- Does a task on the text of its script. -/
def perform (i : Invocation) (source : String) : IO UInt32 := do
  match i.task, Performance.ofSource source with
  | .run options, .ok performance =>
    let filter := LogFilter.ofVerbosity i.verbosity
    let _ ← carryOut performance (Session.host options filter .emptyFolder 0.0)
    return 0
  | _, _ => printTranscript (Session.perform i source .emptyFolder 0.0)

/-- Does what an invocation asks for. -/
def invoke (i : Invocation) : IO UInt32 := do
  (Session.opening i).forM IO.eprintln
  let content ←
    try
      pure (Except.ok (← IO.FS.readBinFile i.path))
    catch e => pure (Except.error (reason e))
  match content.bind fun bytes => (String.fromUTF8? bytes).elim (.error Session.notText) .ok with
  | .ok source => perform i source
  | .error message =>
    IO.eprintln (Session.unreadableLine message)
    return Session.unreadable.toUInt32

/-- How the program is used. -/
def usage : String :=
  "Usage: stagescript [-v]... (tokenize | parse | run) PATH [OPTIONS]\n" ++
    "  tokenize PATH [--format basic|debug]\n" ++
    "  parse PATH [--format sexpr|debug]\n" ++
    "  run PATH [--dry-run] [--speaker NAME] [--pretty-errors]"

end StageScript.Console

open StageScript in
/-- Reads the command line and does what it asks for. -/
def main (words : List String) : IO UInt32 := do
  match Invocation.ofWords words with
  | .ok i => Console.invoke i
  | .error refusal =>
    match refusal with
    | .information => IO.println Console.usage
    | .usage => IO.eprintln Console.usage
    return (Session.refusalCode refusal).toUInt32
