import StageScript.Token

set_option autoImplicit false

/-! # A stream of items

What is left to read of a script: the items up to the end of the file, and the token for the end
itself, which a stream gives over and over once the items are used up. -/

namespace StageScript

/-- The items that are still to be read, and where the script ends. -/
structure Stream where
  items : List Item
  stop : Span
  stopLine : Nat
  deriving DecidableEq

namespace Stream

/-- The token for the end of the file. -/
def finish (s : Stream) : Token := ⟨.endOfFile, s.stop, s.stopLine, ""⟩

/-- The next item. -/
def head (s : Stream) : Item := s.items.headD (.token s.finish)

/-- The stream after the next item. -/
def tail (s : Stream) : Stream := { s with items := s.items.tail }

/-- All items, with one token for the end of the file. -/
def toList (s : Stream) : List Item := s.items ++ [.token s.finish]

/-- The stream at its end gives the end of the file and stays where it is. -/
theorem head_of_items_nil {s : Stream} (h : s.items = []) :
    s.head = .token s.finish ∧ s.tail = s := by
  cases s
  simp_all [head, tail]

end Stream

end StageScript
