set_option autoImplicit false

/-! # The parts of a binary64 number

A finite number is a sign, a whole significand and a power of two. `Parts.ofFloat` reads them off
the bits, so that all further work on the number is exact arithmetic on natural numbers. -/

namespace StageScript.Decimal

/-- What a binary64 number stands for. -/
inductive Parts where
  | nan
  | infinite (negative : Bool)
  /-- The number `significand · 2 ^ exponent`, negated if `negative`. -/
  | finite (negative : Bool) (significand : Nat) (exponent : Int)
  deriving DecidableEq

/-- The parts that sixty-four bits spell: one of sign, eleven of exponent, fifty-two of fraction.
    An exponent field of zero has no hidden leading bit. -/
def Parts.ofBits (bits : Nat) : Parts :=
  let negative := bits / Nat.pow 2 63 % 2 == 1
  let field := bits / Nat.pow 2 52 % Nat.pow 2 11
  let fraction := bits % Nat.pow 2 52
  if field == 2047 then
    if fraction == 0 then .infinite negative else .nan
  else if field == 0 then .finite negative fraction (-1074)
  else .finite negative (Nat.pow 2 52 + fraction) (Int.ofNat field - 1075)

/-- The parts of a number. -/
def Parts.ofFloat (x : Float) : Parts := Parts.ofBits x.toBits.toNat

end StageScript.Decimal
