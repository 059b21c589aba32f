import Chip8.Screen

/-!
# Sprites

A sprite is a column of bytes, one for each row, the most significant bit leftmost. Its mask is
the screen on which exactly its set bits are lit, with its upper left corner anywhere in the
plane. Bits that fall off the screen are dropped or, if the mask wraps, come back on the
opposite edge.
-/

namespace Chip8.Sprite

/-- Whether the bit in a column and a row of a sprite is set; outside the sprite none is. -/
def bit (rows : List UInt8) (column row : Int) : Bool :=
  decide (0 ≤ column ∧ column < spriteWidth) && decide (0 ≤ row ∧ row < rows.length) &&
    (rows[row.toNat]?.getD 0).toNat.testBit (spriteWidth - 1 - column.toNat)

/-- The pixels that a sprite covers with its corner at `(x, y)`. -/
def mask (rows : List UInt8) (x y : Int) (wraps : Bool) : Screen :=
  Screen.ofFn fun i j =>
    if wraps then bit rows ((i - x) % screenWidth) ((j - y) % screenHeight)
    else bit rows (i - x) (j - y)

/-- Why a host's sprite was refused. -/
inductive Refusal where
  /-- It has more rows than a mask can take. -/
  | tooTall
  /-- A coordinate does not fit in 32 bits. -/
  | cornerOutOfRange
  deriving DecidableEq, Repr

/-- Whether a coordinate fits in 32 bits. -/
def inCoordinateRange (v : Int) : Bool := decide (-0x80000000 ≤ v ∧ v < 0x80000000)

/-- The mask of a host's sprite: one row more than a draw instruction can ask for is allowed. -/
def mask? (rows : List UInt8) (x y : Int) (wraps : Bool) : Except Refusal Screen :=
  if rows.length > maxSpriteHeight + 1 then .error .tooTall
  else if inCoordinateRange x && inCoordinateRange y then .ok (mask rows x y wraps)
  else .error .cornerOutOfRange

end Chip8.Sprite
