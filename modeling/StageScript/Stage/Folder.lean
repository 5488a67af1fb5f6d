set_option autoImplicit false

/-! # Folders

A folder holds files and folders under names. A path is looked up from a folder name by name: an
empty name and a single dot stay where they are, two dots go back up, and nothing can be looked up
in a file. What lies outside the folder is not known: two dots lead out of it to a folder without
entries. -/

namespace StageScript

/-! ## Entries -/

/-- A file with its bytes, or a folder with its entries. -/
inductive Entry where
  | file (content : ByteArray)
  | folder (entries : List (String × Entry))

/-- Why a path leads nowhere, or not to what is wanted there. -/
inductive PathError where
  | notFound
  | notADirectory
  | isADirectory
  | nameTooLong
  | embeddedNul
  deriving DecidableEq

/-- What the operating system says. -/
def PathError.message : PathError → String
  | notFound => "No such file or directory (os error 2)"
  | notADirectory => "Not a directory (os error 20)"
  | isADirectory => "Is a directory (os error 21)"
  | nameTooLong => "File name too long (os error 36)"
  | embeddedNul => "file name contained an unexpected NUL byte"

namespace Entry

/-- A folder without entries. -/
def emptyFolder : Entry := folder []

/-! ## Adding -/

/-- Entries with one put under a name, in place of the one that is there. -/
def put (name : String) (entry : Entry) : List (String × Entry) → List (String × Entry)
  | [] => [(name, entry)]
  | (n, e) :: rest => if n == name then (n, entry) :: rest else (n, e) :: put name entry rest

/-- The names that a path goes through. -/
def names (path : String) : List String :=
  (path.splitOn "/").filter fun name => name != "" && name != "."

/-- The entry of a folder under a name. -/
def child? (parent : Entry) (name : String) : Option Entry :=
  match parent with
  | file _ => none
  | folder entries => (entries.find? fun entry => entry.1 == name).map (·.2)

/-- The places that a path of names goes through, each as the names that lead to it from the root
    without two dots. The place before the first name is given, the nearest name first. -/
def places : List String → List String → List (List String)
  | [], _ => []
  | name :: rest, here =>
    let place := if name == ".." then here.tail else name :: here
    place.reverse :: places rest place

/-- A folder with something put in along a path of names. Folders on the way are made where there
    are none. -/
def addAt (make : Option Entry → Entry) : List String → Option Entry → Entry
  | [], old => make old
  | name :: rest, old =>
    let parent := old.getD emptyFolder
    match parent with
    | file content => file content
    | folder entries => folder (put name (addAt make rest (parent.child? name)) entries)

/-- A folder with a folder put in at a place, unless something is there already. -/
def addFolderAt (root : Entry) (place : List String) : Entry :=
  addAt (fun old => old.getD emptyFolder) place (some root)

/-- A folder with a folder put in. Every place on the way becomes a folder too, also one that two
    dots leave again. -/
def addFolder (root : Entry) (path : String) : Entry :=
  (places (names path) []).foldl addFolderAt root

/-- A folder with a file put in, and a folder at every place on the way. -/
def addFile (root : Entry) (path : String) (content : ByteArray) : Entry :=
  let way := places (names path) []
  addAt (fun _ => file content) (way.getLastD []) (some (way.dropLast.foldl addFolderAt root))

/-! ## Looking up -/

/-- The longest name in bytes. -/
def nameLimit : Nat := 255

/-- The longest path in bytes. -/
def pathLimit : Nat := 4095

/-- The entry that the names lead to from `here`, which lies in the folders `above`, the nearest
    first. -/
def walk : List String → Entry → List Entry → Except PathError Entry
  | [], here, _ => .ok here
  | name :: rest, here, above =>
    match here with
    | file _ => .error .notADirectory
    | folder _ =>
      if name == "" || name == "." then walk rest here above
      else if name == ".." then
        match above with
        | [] => walk rest emptyFolder []
        | parent :: others => walk rest parent others
      else if nameLimit < name.utf8ByteSize then .error .nameTooLong
      else
        match here.child? name with
        | some entry => walk rest entry (here :: above)
        | none => .error .notFound

/-- The entry at a path. -/
def find (root : Entry) (path : String) : Except PathError Entry :=
  if path.toList.contains '\x00' then .error .embeddedNul
  else if pathLimit < path.utf8ByteSize then .error .nameTooLong
  else if path == "" || path.startsWith "/" then .error .notFound
  else walk (path.splitOn "/") root []

/-- The number of entries of the folder at a path, files and folders alike. -/
def countAt (root : Entry) (path : String) : Except PathError Nat := do
  match ← root.find path with
  | file _ => .error .notADirectory
  | folder entries => return entries.length

/-- The bytes of the file at a path. -/
def contentAt (root : Entry) (path : String) : Except PathError ByteArray := do
  match ← root.find path with
  | file content => return content
  | folder _ => .error .isADirectory

end Entry

end StageScript
