set_option autoImplicit false

/-! # The shortest decimal that reads back

Every real number strictly between the two midpoints around a binary64 number reads as that
number, and so do the midpoints themselves when the significand is even. `shortest` looks for the
coarsest decimal grid that has a point in this interval; of two such points it takes the nearer,
and the upper one when both are equally near. -/

namespace StageScript.Decimal

/-- The decimal number `digits · 10 ^ exponent`. -/
structure Numeral where
  digits : Nat
  exponent : Int
  deriving DecidableEq

/-- The number of decimal digits of a natural number; zero has one. -/
def digitCount (n : Nat) : Nat := (Nat.toDigits 10 n).length

/-- The exponent of the first digit in scientific notation. -/
def Numeral.leading (d : Numeral) : Int := d.exponent + Int.ofNat (digitCount d.digits) - 1

/-- The largest `e` with `10 ^ e ≤ num / den`, for a positive fraction. -/
def floorLog (num den : Nat) : Int :=
  if den ≤ num then Int.ofNat (digitCount (num / den)) - 1
  else -Int.ofNat (digitCount ((den - 1) / num))

/-! ## The interval that rounds to a number -/

/-- A number with the interval of reals that round to it. All three share the denominator. -/
structure Rounding where
  low : Nat
  value : Nat
  high : Nat
  den : Nat
  /-- Whether the two ends belong to the interval. -/
  closed : Bool

/-- The interval of `m · 2 ^ q`, in units of a quarter of `2 ^ q`. The gap below the smallest
    significand of a binade is half of the gap above it, except at the bottom of the range. -/
def Rounding.of (m : Nat) (q : Int) : Rounding :=
  let unit := Nat.pow 2 (q - 2).toNat
  let below := if m == Nat.pow 2 52 && -1074 < q then 1 else 2
  ⟨(4 * m - below) * unit, 4 * m * unit, (4 * m + 2) * unit, Nat.pow 2 (2 - q).toNat, m % 2 == 0⟩

/-- The grid point `c · 10 ^ k` lies in the interval. -/
def Rounding.holds (r : Rounding) (c : Nat) (k : Int) : Bool :=
  let up := Nat.pow 10 k.toNat
  let down := Nat.pow 10 (-k).toNat
  let point := c * up * r.den
  if r.closed then r.low * down ≤ point && point ≤ r.high * down
  else r.low * down < point && point < r.high * down

/-- The point in the interval on the grid of step `10 ^ k` that is nearest to the value. -/
def Rounding.onGrid? (r : Rounding) (k : Int) : Option Numeral :=
  let num := r.value * Nat.pow 10 (-k).toNat
  let den := r.den * Nat.pow 10 k.toNat
  let c := num / den
  let lower := r.holds c k
  let upper := r.holds (c + 1) k
  let nearUpper := den ≤ 2 * (num % den)
  if upper && (!lower || nearUpper) then some ⟨c + 1, k⟩
  else if lower then some ⟨c, k⟩
  else none

/-! ## The shortest decimal -/

/-- A decimal without trailing zeros, dropping at most `fuel` of them. -/
def Numeral.stripZeros : Nat → Numeral → Numeral
  | 0, d => d
  | fuel + 1, d =>
    if d.digits % 10 == 0 && d.digits != 0 then
      Numeral.stripZeros fuel ⟨d.digits / 10, d.exponent + 1⟩
    else d

/-- The shortest decimal that reads back as `m · 2 ^ q`, for a positive `m`. Seventeen digits
    always suffice. -/
def shortest (m : Nat) (q : Int) : Numeral :=
  let r := Rounding.of m q
  let top := floorLog r.value r.den
  let found := (List.range 17).findSome? fun extra => r.onGrid? (top - Int.ofNat extra)
  match found with
  | some d => d.stripZeros (digitCount d.digits)
  | none => ⟨0, 0⟩

end StageScript.Decimal
