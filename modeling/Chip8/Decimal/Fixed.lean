import Chip8.Double.Value

/-!
# Decimals with two places

A double rounded to hundredths. The exact value is rounded once, and a half goes to the even
neighbour. The sign is that of the double, so a small negative number keeps it when all its
digits are zero.
-/

namespace Chip8.Decimal

/-- The whole number nearest to a quotient, a half going to the even neighbour. -/
def roundDiv (num den : Nat) : Nat :=
  let low := num / den
  let rest := num % den
  if 2 * rest < den ∨ (2 * rest = den ∧ low % 2 = 0) then low else low + 1

/-- A number of hundredths with a point before the last two digits. -/
def hundredths (n : Nat) : String :=
  let places := n % 100
  toString (n / 100) ++ "." ++ (if places < 10 then "0" else "") ++ toString places

/-- A double with two places. -/
def twoPlaces (x : Float) : String :=
  match Double.value x with
  | .nan => "nan"
  | .infinite negative => if negative then "-inf" else "inf"
  | .finite negative mantissa exponent =>
    (if negative then "-" else "") ++
      hundredths
        (roundDiv (mantissa * Nat.pow 2 exponent.toNat * 100) (Nat.pow 2 (-exponent).toNat))

end Chip8.Decimal
