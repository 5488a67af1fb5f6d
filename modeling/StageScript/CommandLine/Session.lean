import StageScript.CommandLine.Invocation
import StageScript.Report
import StageScript.Run.Execute
import StageScript.Stage.Host
import StageScript.Syntax.Outline

set_option autoImplicit false

/-! # Sessions

A session is one use of the program: what it prints to the output and to the error output, and its
exit code. The code is 65 when the script has errors that keep it from being listed or run, 1 when
it cannot be read, 2 when the command line makes no sense, and 0 otherwise. What goes wrong while a
script runs does not change the code. -/

namespace StageScript

/-- What a session prints, and its exit code. -/
structure Transcript where
  code : Nat
  out : List String
  err : List String
  deriving DecidableEq

namespace Transcript

/-- The output as one text, every line ended by a newline. -/
def outText (t : Transcript) : String := String.join (t.out.map (· ++ "\n"))

/-- The transcript with more lines of error output in front. -/
def after (t : Transcript) (err : List String) : Transcript := { t with err := err ++ t.err }

end Transcript

/-! ## Tasks -/

namespace Session

/-- The exit code for a script with errors. -/
def badScript : Nat := 65

/-- The exit code for a script that cannot be read. -/
def unreadable : Nat := 1

/-- The exit code for words that lead to no task. -/
def refusalCode : Refusal → Nat
  | .information => 0
  | .usage => 2

/-- A line for the output. -/
def outLine? : OutputLine → Option String
  | .out text => some text
  | .err _ => none

/-- A line for the error output. -/
def errLine? : OutputLine → Option String
  | .out _ => none
  | .err text => some text

/-- Lists the tokens of a script. -/
def tokenize (format : TokenFormat) (source : String) : Transcript :=
  let lines := (Stream.ofString source).listing format
  let err := lines.filterMap errLine?
  ⟨if err.isEmpty then 0 else badScript, lines.filterMap outLine?, err⟩

/-- A program in the given format. -/
def written (format : ProgramFormat) (p : Program) : String :=
  match format with
  | .sexpr => p.sexpr
  | .structural => p.dump.lines

/-- Lists the statements of a script. -/
def parse (format : ProgramFormat) (source : String) : Transcript :=
  match Program.parse source with
  | .ok p => ⟨0, [written format p], []⟩
  | .error e => ⟨badScript, [], [e.plain]⟩

/-- A report as lines. -/
def reportLines (r : Report) : List String :=
  ["Error: " ++ r.title, "  at " ++ r.location, "  " ++ r.label]

/-- A syntax error as lines of the error output. -/
def errorLines (annotated : Bool) (path source : String) (e : ParseError) : List String :=
  if annotated then reportLines (e.report path source.toList) else [e.plain]

/-- The stage of a run, which looks into a folder and at a clock. -/
def host (options : RunOptions) (filter : LogFilter) (folder : Entry) (time : Float)
    (launcher : Launcher := .none) : Host where
  dialogue := .printer options.speaker #[]
  actions := if options.dryRun then .dryRun else .machine launcher
  environment := .machine folder time
  diagnostics := .log
  filter := filter
  records := #[]

/-- The lines that a stage has printed. -/
def printed (h : Host) : List String :=
  match h.dialogue with
  | .printer _ lines => lines.toList
  | .recorder _ => []

/-- The lines that characters make up, each but perhaps the last ended by a newline. -/
def linesOf : List Char → List (List Char)
  | [] => []
  | c :: cs =>
    if c == '\n' then [] :: linesOf cs
    else match linesOf cs with
      | [] => [[c]]
      | line :: lines => (c :: line) :: lines

/-- The lines of a log. -/
def logLines (records : List LogRecord) : List String :=
  (linesOf (records.flatMap fun r => r.text.toList)).map String.ofList

/-- Runs a script. -/
def run (options : RunOptions) (path source : String) (h : Host) : Transcript :=
  match Performance.ofSource source with
  | .error e => ⟨badScript, [], errorLines options.annotated path source e⟩
  | .ok performance =>
    let after := (performance.onHost h).2
    ⟨0, printed after, logLines after.records.toList⟩

/-! ## Whole sessions -/

/-- What a task is called while it is being done. -/
def taskName : Task → String
  | .tokenize _ => "Tokenizing"
  | .parse _ => "Parsing"
  | .run _ => "Running"

/-- What is noted before a script is read. -/
def announcement (i : Invocation) : LogRecord :=
  ⟨.info, s!"{taskName i.task} {Text.quote i.path}..."⟩

/-- The lines of the error output before a script is read. -/
def opening (i : Invocation) : List String :=
  let record := announcement i
  if (LogFilter.ofVerbosity i.verbosity).keeps record then logLines [record] else []

/-- Does the task of an invocation on the text of its script. -/
def perform (i : Invocation) (source : String) (folder : Entry) (time : Float)
    (launcher : Launcher := .none) : Transcript :=
  match i.task with
  | .tokenize format => tokenize format source
  | .parse format => parse format source
  | .run options =>
    run options i.path source
      (host options (LogFilter.ofVerbosity i.verbosity) folder time launcher)

/-- What is wrong with bytes that are no text. -/
def notText : String := "stream did not contain valid UTF-8"

/-- The line for a script that cannot be read. -/
def unreadableLine (reason : String) : String := "Error: " ++ reason

/-- The text of the script at a path. -/
def sourceAt (folder : Entry) (path : String) : Except String String :=
  match folder.contentAt path with
  | .error e => .error e.message
  | .ok content =>
    match String.fromUTF8? content with
    | none => .error notText
    | some source => .ok source

/-- The session of an invocation in a folder. -/
def ofInvocation (i : Invocation) (folder : Entry) (time : Float) (launcher : Launcher := .none) :
    Transcript :=
  match sourceAt folder i.path with
  | .error reason => ⟨unreadable, [], opening i ++ [unreadableLine reason]⟩
  | .ok source => (perform i source folder time launcher).after (opening i)

/-- The session of a command line in a folder. -/
def ofWords (words : List String) (folder : Entry) (time : Float) (launcher : Launcher := .none) :
    Transcript :=
  match Invocation.ofWords words with
  | .error refusal => ⟨refusalCode refusal, [], []⟩
  | .ok i => ofInvocation i folder time launcher

end Session

end StageScript
