import Chip8.Decimal.Shortest
import Chip8.Double.Value

/-!
# Numbers from a host

A host gives whole numbers of any size and doubles. Whole numbers stay exact among themselves;
together with a double they become one, which fails beyond the range of doubles.
-/

namespace Chip8

/-- Why a computation with a host's numbers has no answer. -/
inductive NumberRefusal where
  /-- A quotient by zero. -/
  | divisionByZero
  /-- A whole number was needed and there is none. -/
  | notANumber
  /-- A whole number was needed and the number is infinite. -/
  | infinite
  /-- A whole number is beyond the range of doubles. -/
  | tooLarge
  deriving DecidableEq, Repr

/-- The reason in words. -/
def NumberRefusal.message : NumberRefusal → String
  | .divisionByZero => "float floor division by zero"
  | .notANumber => "cannot convert float NaN to integer"
  | .infinite => "cannot convert float infinity to integer"
  | .tooLarge => "int too large to convert to float"

/-- A number as a host gives it. -/
inductive Number where
  /-- A whole number. -/
  | whole (n : Int)
  /-- A double. -/
  | real (x : Float)
  deriving DecidableEq, Repr

namespace Number

/-- The double nearest to a whole number, if it is in range. -/
def doubleOfWhole (n : Int) : Except NumberRefusal Float :=
  let x := Float.ofInt n
  if x.isInf then .error .tooLarge else .ok x

/-- A number as a double. -/
def toDouble : Number → Except NumberRefusal Float
  | whole n => doubleOfWhole n
  | real x => .ok x

/-- The whole part of a double. -/
def wholePart (x : Float) : Except NumberRefusal Int :=
  match Double.value x with
  | .nan => .error .notANumber
  | .infinite _ => .error .infinite
  | .finite negative mantissa exponent => .ok (Double.truncate negative mantissa exponent)

/-- The difference of two numbers. -/
def minus : Number → Number → Except NumberRefusal Number
  | whole a, whole b => .ok (.whole (a - b))
  | a, b => do return .real ((← a.toDouble) - (← b.toDouble))

/-- Whether a number is zero or less. -/
def isNonpositive : Number → Bool
  | whole n => decide (n ≤ 0)
  | real x => decide (x ≤ 0)

/-- A number in its shortest decimal form. -/
def text : Number → String
  | whole n => toString n
  | real x => Decimal.shortest x

end Number

end Chip8
