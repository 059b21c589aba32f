/-!
# Grouped numerals

Decimal numerals with a comma before every third digit from the right.
-/

namespace Chip8.Text.Grouped

/-- Put a comma after every third digit of a numeral written from right to left. -/
def groupReversed : List Char → List Char
  | a :: b :: c :: d :: rest => a :: b :: c :: ',' :: groupReversed (d :: rest)
  | short => short

/-- A number in grouped digits. -/
def numeral (v : Int) : String :=
  let ds := groupReversed (Nat.toDigits 10 v.natAbs).reverse
  (if v < 0 then "-" else "") ++ String.ofList ds.reverse

end Chip8.Text.Grouped
