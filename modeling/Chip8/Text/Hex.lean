/-!
# Hexadecimal numerals

Numbers in capital hexadecimal digits, padded with zeros to a least width. A minus sign stands
before the padding and counts towards the width.
-/

namespace Chip8.Text.Hex

/-- The capital hexadecimal digits of a number, without leading zeros. -/
def digits (n : Nat) : List Char := (Nat.toDigits 16 n).map Char.toUpper

/-- A number in at least `width` characters, the sign included. -/
def padded (width : Nat) (v : Int) : String :=
  let sign := if v < 0 then ['-'] else []
  let ds := digits v.natAbs
  String.ofList (sign ++ List.replicate (width - sign.length - ds.length) '0' ++ ds)

/-- A number without padding. -/
def plain (v : Int) : String := padded 0 v

end Chip8.Text.Hex
