import Chip8.Text.Blank
import Chip8.Text.DecimalDigit

/-!
# Reading whole numbers

A numeral is a run of decimal digits, in which a single underscore may stand between two digits,
with an optional sign in front and blanks around it.
-/

namespace Chip8.Text

/-- Read digits that follow a digit, given the value so far. -/
def readDigits (value : Nat) : List Char → Option Nat
  | [] => some value
  | '_' :: c :: rest => (digitValue? c).bind fun d => readDigits (10 * value + d) rest
  | c :: rest => (digitValue? c).bind fun d => readDigits (10 * value + d) rest

/-- Read an unsigned numeral. -/
def readNatural : List Char → Option Nat
  | [] => none
  | c :: rest => (digitValue? c).bind fun d => readDigits d rest

/-- Read a numeral. -/
def readWhole (s : String) : Option Int :=
  match trimBlanks s.toList with
  | '-' :: rest => (readNatural rest).map fun n => -(n : Int)
  | '+' :: rest => (readNatural rest).map Int.ofNat
  | rest => (readNatural rest).map Int.ofNat

end Chip8.Text
