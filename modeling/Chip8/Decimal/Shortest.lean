import Chip8.Double.Value

/-!
# Shortest decimals

The decimal of a double with the fewest digits that reads back as the same double, and of those
the nearest to it. It is written positionally from a ten-thousandth up to below `10 ^ 16`,
otherwise with an exponent of at least two digits.
-/

namespace Chip8.Decimal

/-- How many decimal digits a number has. -/
def digitCount (n : Nat) : Nat := (Nat.toDigits 10 n).length

/-- A positive number as a fraction. -/
structure Fraction where
  /-- The numerator. -/
  num : Nat
  /-- The denominator. -/
  den : Nat
  deriving DecidableEq, Repr

/-- The fraction `mantissa * 2 ^ exponent`. -/
def Fraction.ofBinary (mantissa : Nat) (exponent : Int) : Fraction :=
  ⟨mantissa * Nat.pow 2 exponent.toNat, Nat.pow 2 (-exponent).toNat⟩

/-- A fraction times a power of ten. -/
def Fraction.scale (v : Fraction) (exponent : Int) : Fraction :=
  ⟨v.num * Nat.pow 10 exponent.toNat, v.den * Nat.pow 10 (-exponent).toNat⟩

/-- The power of ten of the first digit of a positive fraction. -/
def Fraction.magnitude (v : Fraction) : Int :=
  if v.den ≤ v.num then (digitCount (v.num / v.den) : Int) - 1
  else -(digitCount ((v.den - 1) / v.num) : Int)

/-- The double nearest to `digits * 10 ^ exponent`. -/
def read (digits : Nat) (exponent : Int) : Float :=
  if 0 ≤ exponent then Float.ofScientific (digits * Nat.pow 10 exponent.toNat) false 0
  else Float.ofScientific digits true (-exponent).toNat

/-- Of the two neighbours of a fraction on a decimal grid, the nearest that reads back. -/
def neighbour? (x : Float) (v : Fraction) (exponent : Int) : Option Nat :=
  let scaled := v.scale (-exponent)
  let low := scaled.num / scaled.den
  let rest := scaled.num % scaled.den
  let lowReads := read low exponent == x
  let highReads := read (low + 1) exponent == x
  if lowReads && highReads then
    some (if 2 * rest < scaled.den ∨ (2 * rest = scaled.den ∧ low % 2 = 0) then low else low + 1)
  else if lowReads then some low
  else if highReads then some (low + 1)
  else none

/-- Try the grids of `count` and more digits, at most `fuel` of them. -/
def search (x : Float) (v : Fraction) (count : Nat) : Nat → Nat × Int
  | 0 => (0, 0)
  | fuel + 1 =>
    let exponent := v.magnitude - count + 1
    match neighbour? x v exponent with
    | some digits => (digits, exponent)
    | none => search x v (count + 1) fuel

/-- The digits of a number without zeros at the end. -/
def significantDigits (n : Nat) : List Char :=
  ((Nat.toDigits 10 n).reverse.dropWhile (· == '0')).reverse

/-- Digits with a point such that the first one stands for `10 ^ magnitude`. -/
def positional (digits : List Char) (magnitude : Int) : List Char :=
  if magnitude < 0 then
    '0' :: '.' :: List.replicate (-magnitude - 1).toNat '0' ++ digits
  else
    let places := magnitude.toNat + 1
    let whole := digits.take places ++ List.replicate (places - digits.length) '0'
    let rest := digits.drop places
    whole ++ '.' :: (if rest.isEmpty then ['0'] else rest)

/-- Digits with a point after the first one and an exponent. -/
def scientific (digits : List Char) (magnitude : Int) : List Char :=
  let ds := Nat.toDigits 10 magnitude.natAbs
  digits.take 1 ++ (if digits.length ≤ 1 then [] else '.' :: digits.drop 1) ++
    'e' :: (if magnitude < 0 then '-' else '+') :: List.replicate (2 - ds.length) '0' ++ ds

/-- The decimal of a positive double. -/
def shortestPositive (x : Float) (mantissa : Nat) (exponent : Int) : List Char :=
  let found := search x (.ofBinary mantissa exponent) 1 17
  let magnitude := (digitCount found.1 : Int) - 1 + found.2
  let digits := significantDigits found.1
  if -4 ≤ magnitude ∧ magnitude < 16 then positional digits magnitude
  else scientific digits magnitude

/-- The shortest decimal of a double. -/
def shortest (x : Float) : String :=
  match Double.value x with
  | .nan => "nan"
  | .infinite negative => if negative then "-inf" else "inf"
  | .finite negative mantissa exponent =>
    (if negative then "-" else "") ++
      if mantissa = 0 then "0.0" else String.ofList (shortestPositive x.abs mantissa exponent)

end Chip8.Decimal
