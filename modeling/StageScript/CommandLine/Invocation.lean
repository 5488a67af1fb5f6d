import StageScript.Run.Log
import StageScript.Token.Listing

set_option autoImplicit false

/-! # Reading the command line

The program has three subcommands, each on the script at one path: list its tokens, list its
statements, or run it. The words of the command line are read one after the other, and the first
one that asks for information or cannot be right settles what becomes of the whole. -/

namespace StageScript

/-! ## Requests -/

/-- The two ways to list programs. -/
inductive ProgramFormat where
  | sexpr
  | structural
  deriving DecidableEq

/-- How to run a script. -/
structure RunOptions where
  /-- Note actions instead of carrying them out. -/
  dryRun : Bool
  /-- Who says the lines. -/
  speaker : Option String
  /-- Show syntax errors as annotated reports. -/
  annotated : Bool
  deriving DecidableEq

/-- What to do with a script. -/
inductive Task where
  | tokenize (format : TokenFormat)
  | parse (format : ProgramFormat)
  | run (options : RunOptions)
  deriving DecidableEq

/-- A task on the script at a path, with so much detail in the log. -/
structure Invocation where
  task : Task
  path : String
  verbosity : Nat
  deriving DecidableEq

/-- Why the words of a command line lead to no task. -/
inductive Refusal where
  /-- They ask for help or for the version. -/
  | information
  /-- They make no sense. -/
  | usage
  deriving DecidableEq

/-- The log of a run keeps warnings; every request for more detail adds a level. -/
def LogFilter.ofVerbosity : Nat → LogFilter
  | 0 => some .warn
  | 1 => some .info
  | _ => some .debug

/-! ## Subcommands -/

/-- A subcommand with the options that it takes. -/
structure Subcommand where
  name : String
  /-- Options that are given without a value. -/
  flags : List String
  /-- Options that are given with a value, and which values they may have. -/
  settings : List (String × (String → Bool))

/-- What has been given to a subcommand. -/
structure Given where
  path : Option String
  flags : List String
  settings : List (String × String)
  verbosity : Option Nat

namespace Given

/-- Nothing has been given. -/
def nothing : Given := ⟨none, [], [], none⟩

/-- The value of an option. -/
def setting? (g : Given) (name : String) : Option String :=
  (g.settings.find? fun entry => entry.1 == name).map (·.2)

/-- More detail is asked for. -/
def louder (g : Given) : Given := { g with verbosity := some (g.verbosity.getD 0 + 1) }

/-- One more word that is no option. There can be one only, and it is a path. -/
def addPath (g : Given) (word : String) : Except Refusal Given :=
  if word == "" || g.path.isSome then .error .usage else .ok { g with path := some word }

end Given

/-- The formats of token listings by name. -/
def TokenFormat.ofName? : String → Option TokenFormat
  | "basic" => some .plain
  | "debug" => some .structural
  | _ => none

/-- The formats of program listings by name. -/
def ProgramFormat.ofName? : String → Option ProgramFormat
  | "sexpr" => some .sexpr
  | "debug" => some .structural
  | _ => none

namespace Subcommand

/-- Lists tokens. -/
def tokenize : Subcommand :=
  ⟨"tokenize", [], [("format", fun word => (TokenFormat.ofName? word).isSome)]⟩

/-- Lists statements. -/
def parse : Subcommand :=
  ⟨"parse", [], [("format", fun word => (ProgramFormat.ofName? word).isSome)]⟩

/-- Runs a script. -/
def run : Subcommand := ⟨"run", ["dry-run", "pretty-errors"], [("speaker", fun _ => true)]⟩

/-- All subcommands. -/
def all : List Subcommand := [tokenize, parse, run]

/-- The subcommand of a name. -/
def lookup? (name : String) : Option Subcommand := all.find? fun c => c.name == name

/-- The task that a subcommand sets with what has been given to it. -/
def task (c : Subcommand) (g : Given) : Task :=
  let format := g.setting? "format"
  if c.name == "tokenize" then .tokenize ((format.bind TokenFormat.ofName?).getD .plain)
  else if c.name == "parse" then .parse ((format.bind ProgramFormat.ofName?).getD .sexpr)
  else .run ⟨g.flags.contains "dry-run", g.setting? "speaker", g.flags.contains "pretty-errors"⟩

end Subcommand

/-! ## Words -/

namespace Invocation

/-- How far the words have been read. -/
inductive Progress where
  /-- No subcommand yet. -/
  | start (verbosity : Option Nat)
  /-- Help is asked for, on a subcommand or on all of them. -/
  | help (subject : Option String)
  /-- A subcommand, and what has been given to it. The next word may have to be the value of an
      option. -/
  | within (outer : Option Nat) (subcommand : Subcommand) (given : Given) (awaiting : Option String)
  /-- A subcommand after a double dash, where no word is an option. -/
  | literal (outer : Option Nat) (subcommand : Subcommand) (given : Given)

/-- A word that can only be an option. -/
def looksLikeOption (word : String) : Bool :=
  match word.toList with
  | '-' :: _ :: _ => true
  | _ => false

/-- The two halves of a word around its first equal sign. -/
def splitSetting (word : List Char) : String × Option String :=
  let name := String.ofList (word.takeWhile (· != '='))
  match word.dropWhile (· != '=') with
  | [] => (name, none)
  | _ :: value => (name, some (String.ofList value))

/-- A run of one-letter options: how often more detail is asked for, unless one of the letters asks
    for information or is wrong. -/
def readLetters (versioned : Bool) : List Char → Nat → Except Refusal Nat
  | [], count => .ok count
  | c :: cs, count =>
    if c == 'v' then readLetters versioned cs (count + 1)
    else if c == 'h' || (versioned && c == 'V') then .error .information
    else .error .usage

/-- A subcommand that is given a value for an option. -/
def addSetting (c : Subcommand) (g : Given) (name value : String) : Except Refusal Given :=
  match c.settings.find? fun entry => entry.1 == name with
  | none => .error .usage
  | some entry =>
    if entry.2 value && (g.setting? name).isNone then
      .ok { g with settings := (name, value) :: g.settings }
    else .error .usage

/-- A subcommand that is given a long option, without the two dashes. -/
def readLong (outer : Option Nat) (c : Subcommand) (g : Given) (word : List Char) :
    Except Refusal Progress :=
  match splitSetting word with
  | (name, some value) => (addSetting c g name value).map fun g => .within outer c g none
  | (name, none) =>
    if name == "help" then .error .information
    else if name == "verbose" then .ok (.within outer c g.louder none)
    else if c.flags.contains name then
      if g.flags.contains name then .error .usage
      else .ok (.within outer c { g with flags := name :: g.flags } none)
    else if c.settings.any fun entry => entry.1 == name then
      .ok (.within outer c g (some name))
    else .error .usage

/-- A word before any subcommand. -/
def readStart (verbosity : Option Nat) (word : String) : Except Refusal Progress :=
  match word.toList with
  | '-' :: '-' :: _ =>
    if word == "--help" || word == "--version" then .error .information
    else if word == "--verbose" then .ok (.start (some (verbosity.getD 0 + 1)))
    else .error .usage
  | '-' :: letter :: letters =>
    (readLetters true (letter :: letters) (verbosity.getD 0)).map fun n => .start (some n)
  | _ =>
    if word == "help" then .ok (.help none)
    else
      match Subcommand.lookup? word with
      | some c => .ok (.within verbosity c .nothing none)
      | none => .error .usage

/-- A word after a subcommand. -/
def readWithin (outer : Option Nat) (c : Subcommand) (g : Given) (word : String) :
    Except Refusal Progress :=
  match word.toList with
  | ['-', '-'] => .ok (.literal outer c g)
  | '-' :: '-' :: name => readLong outer c g name
  | '-' :: letter :: letters =>
    (readLetters false (letter :: letters) (g.verbosity.getD 0)).map fun n =>
      .within outer c { g with verbosity := some n } none
  | _ => (g.addPath word).map fun g => .within outer c g none

/-- One more word. -/
def readWord (progress : Progress) (word : String) : Except Refusal Progress :=
  match progress with
  | .start verbosity => readStart verbosity word
  | .help none =>
    if word == "help" || (Subcommand.lookup? word).isSome then .ok (.help (some word))
    else .error .usage
  | .help (some _) => .error .usage
  | .within outer c g none => readWithin outer c g word
  | .within outer c g (some name) =>
    if looksLikeOption word then .error .usage
    else (addSetting c g name word).map fun g => .within outer c g none
  | .literal outer c g => (g.addPath word).map fun g => .literal outer c g

/-- The invocation of a subcommand. What is said about detail after a subcommand counts more than
    what is said before it. -/
def ofGiven (outer : Option Nat) (c : Subcommand) (g : Given) : Except Refusal Invocation :=
  match g.path with
  | none => .error .usage
  | some path => .ok ⟨c.task g, path, (g.verbosity.or outer).getD 0⟩

/-- The end of the words. -/
def finish : Progress → Except Refusal Invocation
  | .start _ => .error .usage
  | .help _ => .error .information
  | .within _ _ _ (some _) => .error .usage
  | .within outer c g none => ofGiven outer c g
  | .literal outer c g => ofGiven outer c g

/-- The invocation that the words of a command line make up. -/
def ofWords (words : List String) : Except Refusal Invocation := do
  finish (← words.foldlM readWord (.start none))

end Invocation

end StageScript
