import StageScript.Run.Performance
import StageScript.Syntax.Arguments

set_option autoImplicit false

/-! # Commands

The table of the commands that a script may give. An entry says which arguments the command needs,
which others it takes, and what it does with them. A command is looked up by its name. -/

namespace StageScript

/-! ## Calls -/

/-- A command as it is given, with the texts of its arguments. -/
structure CommandCall where
  name : String
  values : List (String × String)
  deriving DecidableEq

namespace CommandCall

/-- The call of a command with the arguments as they are written. -/
def ofArguments (name : String) (arguments : Arguments) : CommandCall :=
  ⟨name, arguments.entries.map fun entry => (entry.1, entry.2.argumentText)⟩

/-- The text under a key. -/
def get? (call : CommandCall) (key : String) : Option String :=
  (call.values.find? fun entry => entry.1 == key).map (·.2)

/-- The text under a key that has to be there. -/
def require (call : CommandCall) (key : String) : Except FailureKind String :=
  match call.get? key with
  | some text => .ok text
  | none => .error (.missingArgument call.name key)

/-- The keys in order. -/
def keys (call : CommandCall) : List String := call.values.map (·.1)

end CommandCall

/-! ## The table -/

/-- An entry of the command table. -/
structure Command where
  name : String
  required : List String
  optional : List String
  action : CommandCall → Except FailureKind Act

namespace Command

/-- The key of a path. -/
def pathKey : String := "パス"

/-- Blocks mouse input. -/
def blockMouse : Command := ⟨"マウス入力を無効化", [], [], fun _ => .ok (.blockInput true)⟩

/-- Releases mouse input. -/
def releaseMouse : Command := ⟨"マウス入力を有効化", [], [], fun _ => .ok (.blockInput false)⟩

/-- Opens a path. -/
def openApplication : Command :=
  ⟨"アプリケーションを開く", [pathKey], [], fun call => (call.require pathKey).map .openPath⟩

/-- All commands. -/
def table : List Command := [blockMouse, releaseMouse, openApplication]

/-- The command of a name. -/
def lookup? (name : String) : Option Command := table.find? fun c => c.name == name

/-- Whether every argument that the command needs is there. -/
def check (c : Command) (call : CommandCall) : Except FailureKind Unit :=
  c.required.forM fun key => (call.require key).map fun _ => ()

/-- Whether the command takes an argument under a key. -/
def accepts (c : Command) (key : String) : Bool :=
  c.required.contains key || c.optional.contains key

end Command

end StageScript
