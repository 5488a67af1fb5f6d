set_option autoImplicit false

/-! # Structured listings

A `Dump` is a value laid out as text: a word, a record with named fields, a variant with unnamed
ones, or a list. It is written either on one line, or with one part per line, four spaces further
in than the line that opens it and with a comma after every part. A part list without parts is
written closed in both forms. -/

namespace StageScript

/-- A value to be laid out. A variant without a name is a tuple. -/
inductive Dump where
  | word (text : String)
  | record (name : String) (fields : List (String × Dump))
  | variant (name : String) (parts : List Dump)
  | list (parts : List Dump)

namespace Dump

/-! ## On one line -/

mutual

/-- The listing on one line. -/
def inline : Dump → String
  | word text => text
  | record name fields => name ++ " \x7b " ++ inlineFields fields ++ " \x7d"
  | variant name parts => name ++ "(" ++ inlineParts parts ++ ")"
  | list parts => "[" ++ inlineParts parts ++ "]"

/-- Named fields, separated by commas. -/
def inlineFields : List (String × Dump) → String
  | [] => ""
  | [(name, value)] => name ++ ": " ++ value.inline
  | (name, value) :: next :: rest =>
    name ++ ": " ++ value.inline ++ ", " ++ inlineFields (next :: rest)

/-- Parts, separated by commas. -/
def inlineParts : List Dump → String
  | [] => ""
  | [value] => value.inline
  | value :: next :: rest => value.inline ++ ", " ++ inlineParts (next :: rest)

end

/-! ## One part per line -/

/-- The start of a line that is `depth` levels in. -/
def indent (depth : Nat) : String := String.ofList (List.replicate (4 * depth) ' ')

mutual

/-- The listing with one part per line, `depth` levels in. -/
def indented (depth : Nat) : Dump → String
  | word text => text
  | record name fields =>
    name ++ " \x7b\n" ++ indentedFields (depth + 1) fields ++ indent depth ++ "\x7d"
  | variant name parts =>
    name ++ "(\n" ++ indentedParts (depth + 1) parts ++ indent depth ++ ")"
  | list [] => "[]"
  | list (part :: parts) =>
    "[\n" ++ indentedParts (depth + 1) (part :: parts) ++ indent depth ++ "]"

/-- Named fields, one per line. -/
def indentedFields (depth : Nat) : List (String × Dump) → String
  | [] => ""
  | (name, value) :: rest =>
    indent depth ++ name ++ ": " ++ value.indented depth ++ ",\n" ++ indentedFields depth rest

/-- Parts, one per line. -/
def indentedParts (depth : Nat) : List Dump → String
  | [] => ""
  | value :: rest =>
    indent depth ++ value.indented depth ++ ",\n" ++ indentedParts depth rest

end

/-- The listing with one part per line. -/
def lines (d : Dump) : String := d.indented 0

/-- A natural number. -/
def nat (n : Nat) : Dump := word (toString n)

end Dump

end StageScript
