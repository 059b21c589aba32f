import Chip8.Layout

/-!
# The built-in digits

Sixteen glyphs of five rows each, four pixels wide, stored in order from `fontStart`. The glyph
of a number is that of its low hexadecimal digit.
-/

namespace Chip8.Font

/-- The rows of the digits `0` to `F`, the most significant bit leftmost. -/
def rows : List UInt8 :=
  [0xF0, 0x90, 0x90, 0x90, 0xF0,
   0x20, 0x60, 0x20, 0x20, 0x70,
   0xF0, 0x10, 0xF0, 0x80, 0xF0,
   0xF0, 0x10, 0xF0, 0x10, 0xF0,
   0x90, 0x90, 0xF0, 0x10, 0x10,
   0xF0, 0x80, 0xF0, 0x10, 0xF0,
   0xF0, 0x80, 0xF0, 0x90, 0xF0,
   0xF0, 0x10, 0x20, 0x40, 0x40,
   0xF0, 0x90, 0xF0, 0x90, 0xF0,
   0xF0, 0x90, 0xF0, 0x10, 0xF0,
   0xF0, 0x90, 0xF0, 0x90, 0x90,
   0xE0, 0x90, 0xE0, 0x90, 0xE0,
   0xF0, 0x80, 0x80, 0x80, 0xF0,
   0xE0, 0x90, 0x90, 0x90, 0xE0,
   0xF0, 0x80, 0xF0, 0x80, 0xF0,
   0xF0, 0x80, 0xF0, 0x80, 0x80]

/-- The font is one glyph for each hexadecimal digit. -/
theorem length_rows : rows.length = 16 * glyphSize := rfl

/-- Where the glyph of a number's low hexadecimal digit starts. -/
def glyphAddress (digit : Int) : Nat := fontStart + (digit % 16).toNat * glyphSize

/-- Every glyph lies inside the stored font. -/
theorem glyphAddress_bounds (digit : Int) :
    fontStart ≤ glyphAddress digit ∧ glyphAddress digit + glyphSize ≤ fontStart + rows.length := by
  simp only [length_rows, glyphAddress, fontStart, glyphSize]
  omega

end Chip8.Font
