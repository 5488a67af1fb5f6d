import StageScript.Decimal.Binary
import StageScript.Decimal.Shortest

set_option autoImplicit false

/-! # How numbers are written

Numbers are written with the fewest digits that read back. Two layouts are in use: a listing shows
that a number is one and keeps very large and very small numbers short, while text that a script
hands on is always positional and has a point only where there is a fraction. -/

namespace StageScript.Decimal

/-! ## Layouts -/

/-- A way to lay out the digits of a decimal number. -/
structure Layout where
  /-- The exponents of the first digit that are written without an exponent part, as a half-open
      range; none stands for all of them. -/
  positional : Option (Int × Int)
  /-- Positional numbers without a fraction end in this. -/
  wholeEnding : String

/-- In listings a number is positional from `0.0001` up to, but not including, `1e16`. -/
def Layout.listing : Layout := ⟨some (-4, 16), ".0"⟩

/-- Text that is handed on never has an exponent part. -/
def Layout.text : Layout := ⟨none, ""⟩

/-- Whether a number whose first digit has this exponent is written without an exponent part. -/
def Layout.isPositional (layout : Layout) (leading : Int) : Bool :=
  match layout.positional with
  | none => true
  | some (low, high) => low ≤ leading && leading < high

/-! ## Digits -/

/-- The decimal digits of a natural number. -/
def digitText (n : Nat) : String := String.ofList (Nat.toDigits 10 n)

/-- A run of zeros. -/
def zeros (n : Nat) : String := String.ofList (List.replicate n '0')

/-- Digits and a point, without an exponent part. -/
def Numeral.toPositional (d : Numeral) (wholeEnding : String) : String :=
  let digits := Nat.toDigits 10 d.digits
  let point := Int.ofNat digits.length + d.exponent
  if 0 ≤ d.exponent then String.ofList digits ++ zeros d.exponent.toNat ++ wholeEnding
  else if 0 < point then
    String.ofList (digits.take point.toNat) ++ "." ++ String.ofList (digits.drop point.toNat)
  else "0." ++ zeros (-point).toNat ++ String.ofList digits

/-- One digit, the others after a point, and the power of ten that the first stands at. -/
def Numeral.toScientific (d : Numeral) : String :=
  let digits := Nat.toDigits 10 d.digits
  let fraction := String.ofList (digits.drop 1)
  let sign := if d.leading < 0 then "-" else ""
  String.ofList (digits.take 1) ++ (if fraction.isEmpty then "" else "." ++ fraction) ++
    "e" ++ sign ++ digitText d.leading.natAbs

/-- A decimal number in the given layout. -/
def Layout.write (layout : Layout) (d : Numeral) : String :=
  if layout.isPositional d.leading then d.toPositional layout.wholeEnding else d.toScientific

/-! ## Numbers -/

/-- The parts of a number in the given layout. A NaN is written without a sign. -/
def Layout.writeParts (layout : Layout) : Parts → String
  | .nan => "NaN"
  | .infinite negative => if negative then "-inf" else "inf"
  | .finite negative m q =>
    let magnitude := if m == 0 then "0" ++ layout.wholeEnding else layout.write (shortest m q)
    if negative then "-" ++ magnitude else magnitude

/-- A number as a listing shows it. -/
def listed (x : Float) : String := Layout.listing.writeParts (Parts.ofFloat x)

/-- A number as text that is handed on. -/
def textOf (x : Float) : String := Layout.text.writeParts (Parts.ofFloat x)

end StageScript.Decimal
