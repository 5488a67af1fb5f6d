set_option autoImplicit false

/-! # Reading decimal numbers

A number is an optional sign and then either one of the words `inf`, `infinity` and `nan` in any
ASCII case, or decimal digits with at most one point among or beside them and at most one exponent
after them. Nothing else is a number, blanks included. The value is rounded to the nearest
binary64 number; too large ones become infinite and too small ones zero. -/

namespace StageScript.Decimal

/-! ## Grammar -/

/-- A whole number that digits spell. -/
def natOfDigits (cs : List Char) : Nat :=
  cs.foldl (fun n c => 10 * n + (c.toNat - '0'.toNat)) 0

/-- An ASCII digit. -/
def isAsciiDigit (c : Char) : Bool := '0' ≤ c && c ≤ '9'

/-- An optional sign, and whether it is a minus. -/
def readSign : List Char → Bool × List Char
  | '-' :: cs => (true, cs)
  | '+' :: cs => (false, cs)
  | cs => (false, cs)

/-- The exponent that follows the digits. Nothing at all stands for zero. -/
def readExponent? : List Char → Option Int
  | [] => some 0
  | c :: cs =>
    if c == 'e' || c == 'E' then
      let (negative, ds) := readSign cs
      if !ds.isEmpty && ds.all isAsciiDigit then
        some (if negative then -Int.ofNat (natOfDigits ds) else Int.ofNat (natOfDigits ds))
      else none
    else none

/-- The digits before and after the point, and what follows them. -/
def readDigits (cs : List Char) : List Char × List Char × List Char :=
  let whole := cs.takeWhile isAsciiDigit
  match cs.dropWhile isAsciiDigit with
  | '.' :: rest => (whole, rest.takeWhile isAsciiDigit, rest.dropWhile isAsciiDigit)
  | rest => (whole, [], rest)

/-! ## Value -/

/-- The binary64 number nearest to the whole number that the digits spell times `10 ^ e`. Powers
    far beyond the range of binary64 are not worked out. -/
def nearest (digits : List Char) (e : Int) : Float :=
  let significant := digits.dropWhile (· == '0')
  let leading := Int.ofNat significant.length - 1 + e
  if significant.isEmpty || leading < -400 then 0.0
  else if 310 < leading then 1.0 / 0.0
  else Float.ofScientific (natOfDigits significant) (e < 0) e.natAbs

/-- An unsigned number. -/
def readMagnitude? (cs : List Char) : Option Float :=
  let word := cs.map Char.toLower
  if word == "inf".toList || word == "infinity".toList then some (1.0 / 0.0)
  else if word == "nan".toList then some (0.0 / 0.0)
  else
    let (whole, fraction, rest) := readDigits cs
    if whole.isEmpty && fraction.isEmpty then none
    else
      (readExponent? rest).map fun e =>
        nearest (whole ++ fraction) (e - Int.ofNat fraction.length)

/-- The number that the characters spell, if they spell one. -/
def readChars? (cs : List Char) : Option Float :=
  let (negative, rest) := readSign cs
  (readMagnitude? rest).map fun x => if negative then -x else x

/-- The number that a text spells, if it spells one. -/
def read? (s : String) : Option Float := readChars? s.toList

end StageScript.Decimal
