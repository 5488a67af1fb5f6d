set_option autoImplicit false

/-! # The time of day

A script sees the time of day as one number, the hours in the hundreds and the minutes below. -/

namespace StageScript

/-- A time of day as one number: five past two in the afternoon is 1405. -/
def clockNumber (hour minute : Nat) : Float := Float.ofNat (hour * 100 + minute)

/-- Whether there is such a time on the clock. -/
def isTimeOfDay (hour minute second : Nat) : Bool := hour < 24 && minute < 60 && second < 60

end StageScript
