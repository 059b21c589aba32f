/-!
# The value of a double

A double is not a number, infinite, or a sign with a natural number times a power of two. All
exact work on doubles goes through this form, in which arithmetic is that of the integers.
-/

namespace Chip8.Double

/-- What a double stands for. -/
inductive Value where
  /-- Not a number. -/
  | nan
  /-- An infinity. -/
  | infinite (negative : Bool)
  /-- The number `mantissa * 2 ^ exponent` with a sign; zero has a sign too. -/
  | finite (negative : Bool) (mantissa : Nat) (exponent : Int)
  deriving DecidableEq, Repr

/-- Whether a sign is that of the negative numbers. -/
def isMinus : Float.Model.UnpackedFloat.Sign → Bool
  | .negative => true
  | .positive => false

/-- The sign of the negative numbers or of the others. -/
def signOf (negative : Bool) : Float.Model.UnpackedFloat.Sign :=
  if negative then .negative else .positive

/-- What a double stands for. -/
def value (x : Float) : Value :=
  match x.toModel.unpack with
  | .notANumber => .nan
  | .infinity sign => .infinite (isMinus sign)
  | .zero sign => .finite (isMinus sign) 0 0
  | .finite sign mantissa exponent _ => .finite (isMinus sign) mantissa exponent

/-- The double nearest to `mantissa * 2 ^ exponent` with a sign, a tie going to the even
neighbour. -/
def nearest (negative : Bool) (mantissa : Nat) (exponent : Int) : Float :=
  Float.ofModel (.pack (.round .binary64 (signOf negative) mantissa exponent))

/-- A number with a sign in front. -/
def signed (negative : Bool) (n : Nat) : Int := if negative then -n else n

/-- The whole number next to `mantissa * 2 ^ exponent` towards zero. -/
def truncate (negative : Bool) (mantissa : Nat) (exponent : Int) : Int :=
  if 0 ≤ exponent then signed negative (mantissa * Nat.pow 2 exponent.toNat)
  else signed negative (mantissa / Nat.pow 2 (-exponent).toNat)

/-- The greatest whole number that is not above `mantissa * 2 ^ exponent`. -/
def floor (negative : Bool) (mantissa : Nat) (exponent : Int) : Int :=
  if 0 ≤ exponent then signed negative (mantissa * Nat.pow 2 exponent.toNat)
  else signed negative mantissa / Nat.pow 2 (-exponent).toNat

end Chip8.Double
