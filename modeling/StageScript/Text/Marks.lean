set_option autoImplicit false

/-! # Quote marks around a text

A quoted text is written between two marks of one character each. `unmark?` takes exactly one
character off either end, whatever the two characters are, and fails when there are not two of
them to take. -/

namespace StageScript.Text

/-- The characters between the first and the last. -/
def unmarkChars? : List Char → Option (List Char)
  | [] => none
  | _ :: cs => if cs.isEmpty then none else some cs.dropLast

/-- The text between the first and the last character. -/
def unmark? (s : String) : Option String := (unmarkChars? s.toList).map String.ofList

/-- Any two characters may serve as the marks. -/
theorem unmarkChars?_between (a b : Char) (cs : List Char) :
    unmarkChars? (a :: (cs ++ [b])) = some cs := by
  simp [unmarkChars?]

end StageScript.Text
