import Chip8.Number

/-!
# Floor division of doubles

The remainder of two doubles is exact and has the sign of the dividend. The floor quotient is
computed from it: dividend less remainder, divided and rounded as a double, lowered by one if
divisor and remainder have opposite signs, and taken to the nearest whole number below, or above
if that one is nearer. It can differ from the floor of the rounded quotient.
-/

namespace Chip8.Double

/-- The double that is not a number. -/
def notANumber : Float := Float.ofBits 0x7FF8000000000000

/-- What is left of a dividend after taking the divisor away as often as it goes, towards zero. -/
def remainder (a b : Float) : Float :=
  match value a, value b with
  | .finite negative m e, .finite _ k f =>
    if k = 0 then notANumber
    else
      let unit := min e f
      nearest negative (m * Nat.pow 2 (e - unit).toNat % (k * Nat.pow 2 (f - unit).toNat)) unit
  | .finite _ _ _, .infinite _ => a
  | _, _ => notANumber

/-- The greatest whole number not above a double, as a double. -/
def floorDouble (x : Float) : Float :=
  match value x with
  | .finite negative mantissa exponent => Float.ofInt (floor negative mantissa exponent)
  | _ => x

/-- The whole number that a quotient which should be whole stands for. -/
def snap (q : Float) : Float :=
  if q != 0 then
    let low := floorDouble q
    if 0.5 < q - low then low + 1 else low
  else 0

/-- The floor quotient of two doubles. -/
def floorQuotient (a b : Float) : Except NumberRefusal Float :=
  if b == 0 then .error .divisionByZero
  else
    let rest := remainder a b
    let quotient := (a - rest) / b
    let opposite := rest != 0 && (decide (b < 0) != decide (rest < 0))
    .ok (snap (if opposite then quotient - 1 else quotient))

end Chip8.Double
