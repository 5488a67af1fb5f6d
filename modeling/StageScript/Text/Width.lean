set_option autoImplicit false

/-! # Full-width digits, signs and points

Numbers may be typed with the full-width forms of the ten digits, the decimal point and the two
signs. `halfWidth` folds each of them to its ASCII form and leaves every other character alone, so
that a folded text can be read as an ordinary decimal number. -/

namespace StageScript.Text

/-- An ASCII decimal digit or its full-width form. -/
def isDigit (c : Char) : Bool :=
  ('0' ≤ c && c ≤ '9') || ('０' ≤ c && c ≤ '９')

/-- A decimal point of either width. -/
def isPoint (c : Char) : Bool := c == '.' || c == '．'

/-- The ASCII form of a full-width digit, point or sign. -/
def halfWidth (c : Char) : Char :=
  if '０' ≤ c && c ≤ '９' then Char.ofNat (c.toNat - '０'.toNat + '0'.toNat)
  else if c == '．' then '.'
  else if c == '－' then '-'
  else if c == '＋' then '+'
  else c

/-- A text with every full-width digit, point and sign folded. -/
def foldWidth (s : String) : String := String.ofList (s.toList.map halfWidth)

/-- Nothing in the text has a half-width form other than itself. -/
def isFolded (s : String) : Bool := s.toList.all fun c => halfWidth c == c

@[simp] theorem toList_foldWidth (s : String) :
    (foldWidth s).toList = s.toList.map halfWidth := by
  simp [foldWidth]

/-- Folding a folded text changes nothing. -/
theorem foldWidth_eq_self {s : String} (h : isFolded s = true) : foldWidth s = s := by
  apply String.toList_inj.1
  have h' : ∀ c ∈ s.toList, halfWidth c = c := by simpa [isFolded] using h
  rw [toList_foldWidth]
  exact (List.map_congr_left h').trans (List.map_id _)

end StageScript.Text
