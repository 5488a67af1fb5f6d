set_option autoImplicit false

/-! # Lines of a script

`LineIndex` holds the byte position at which each line starts. The line of a position counts the
starts at or before it; a position beyond the end belongs to the last line. Lines count from one,
and only the newline character ends a line. -/

namespace StageScript

/-- Where the lines of a script start, in increasing order. -/
structure LineIndex where
  starts : List Nat

namespace LineIndex

/-- The byte positions right after the newlines, when the text starts at `offset`. -/
def startsFrom (offset : Nat) : List Char → List Nat
  | [] => []
  | c :: cs =>
    let next := offset + c.utf8Size
    if c = '\n' then next :: startsFrom next cs else startsFrom next cs

/-- The line starts of a text. The first line starts at zero. -/
def ofText (text : List Char) : LineIndex := ⟨0 :: startsFrom 0 text⟩

/-- The number of lines. -/
def count (index : LineIndex) : Nat := index.starts.length

/-- The line of a byte position. -/
def lineAt (index : LineIndex) (offset : Nat) : Nat :=
  min (max 1 (index.starts.takeWhile (· ≤ offset)).length) index.count

/-- The number of lines, kept in a word of thirty-two bits. -/
def countWord (index : LineIndex) : UInt32 := index.count.toUInt32

/-- The line of a byte position, with lines kept in words of thirty-two bits. -/
def lineWordAt (index : LineIndex) (offset : Nat) : UInt32 :=
  min (max 1 (index.starts.takeWhile (· ≤ offset)).length.toUInt32) index.countWord

end LineIndex

end StageScript
