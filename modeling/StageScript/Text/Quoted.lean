import StageScript.Text.Printable

set_option autoImplicit false

/-! # Quoted text

How a listing writes a text or a character between quote marks so that it stays on one line: the
backslash and the mark itself get a backslash in front, four control characters have a letter of
their own, and every other invisible character is written by its hexadecimal number. -/

namespace StageScript.Text

/-- A character by its number, as in `\u\x7b3000\x7d`. -/
def numbered (c : Char) : String :=
  "\\u\x7b" ++ String.ofList (Nat.toDigits 16 c.toNat) ++ "\x7d"

/-- A character between the given quote marks. -/
def escape (mark c : Char) : String :=
  if c == '\x00' then "\\0"
  else if c == '\t' then "\\t"
  else if c == '\r' then "\\r"
  else if c == '\n' then "\\n"
  else if c == '\\' || c == mark then "\\" ++ c.toString
  else if isInvisible c then numbered c
  else c.toString

/-- A text in double quotes. -/
def quote (s : String) : String :=
  "\"" ++ String.join (s.toList.map (escape '\x22')) ++ "\""

/-- A character in single quotes. -/
def quoteChar (c : Char) : String := "'" ++ escape '\x27' c ++ "'"

end StageScript.Text
