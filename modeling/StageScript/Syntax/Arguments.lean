import StageScript.Syntax.Literal

set_option autoImplicit false

/-! # Arguments of a command

The arguments of a command are kept in the order in which their keys are first written. Writing a
key again replaces its value in place. An argument without a key goes under the key `default`. -/

namespace StageScript

/-- Literals under keys, in order. -/
structure Arguments where
  entries : List (String × Literal)
  deriving DecidableEq

namespace Arguments

/-- The key of an argument that is written without one. -/
def defaultKey : String := "default"

/-- No arguments. -/
def empty : Arguments := ⟨[]⟩

/-- A value put under a key: in place of the one that is there, or else at the end. -/
def insertEntry (key : String) (value : Literal) :
    List (String × Literal) → List (String × Literal)
  | [] => [(key, value)]
  | (k, v) :: rest => if k = key then (k, value) :: rest else (k, v) :: insertEntry key value rest

/-- The arguments with a value put under a key. -/
def insert (a : Arguments) (key : String) (value : Literal) : Arguments :=
  ⟨insertEntry key value a.entries⟩

/-- The arguments that a list of keys and values gives, put in one by one. -/
def ofList (pairs : List (String × Literal)) : Arguments :=
  pairs.foldl (fun a pair => a.insert pair.1 pair.2) empty

/-- The value under a key. -/
def get? (a : Arguments) (key : String) : Option Literal :=
  (a.entries.find? fun entry => entry.1 == key).map (·.2)

/-- Whether there is a value under a key. -/
def contains (a : Arguments) (key : String) : Bool := (a.get? key).isSome

/-- The number of keys. -/
def size (a : Arguments) : Nat := a.entries.length

/-- Whether there is no argument. -/
def isEmpty (a : Arguments) : Bool := a.entries.isEmpty

/-- A key gives the value that was last put under it, and the other keys keep theirs. -/
theorem get?_insert (a : Arguments) (key other : String) (value : Literal) :
    (a.insert key value).get? other = if key = other then some value else a.get? other := by
  rcases a with ⟨entries⟩
  simp only [insert, get?]
  induction entries with
  | nil => by_cases h : key = other <;> simp [insertEntry, h]
  | cons entry rest ih =>
    obtain ⟨k, v⟩ := entry
    by_cases hk : k = key
    · subst hk
      by_cases h : k = other <;> simp [insertEntry, h]
    · by_cases h : k = other
      · subst h
        simp [insertEntry, hk, Ne.symm hk]
      · simp [insertEntry, hk, h, ih]

end Arguments

end StageScript
