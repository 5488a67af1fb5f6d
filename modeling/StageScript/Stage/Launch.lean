import StageScript.Stage.Folder

set_option autoImplicit false

/-! # Opening paths

A path is opened by handing it to a program of the desktop. Whether that program can be started is
known only when it is tried. -/

namespace StageScript

/-- A program with its arguments. -/
structure Launch where
  program : String
  arguments : List String
  deriving DecidableEq

namespace Launch

/-- The program that opens a path with whatever opens files of its kind. -/
def opener (path : String) : Launch := ⟨"xdg-open", [path]⟩

/-- The program could not be started. -/
def failureMessage (path : String) : String := s!"Could not open `{path}`"

end Launch

/-- What comes of starting a program: it runs, or there is a reason why it does not. -/
abbrev Launcher := Launch → Except String Unit

/-- Finds no program. -/
def Launcher.none : Launcher := fun _ => .error PathError.notFound.message

end StageScript
