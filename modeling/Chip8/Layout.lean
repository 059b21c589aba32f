/-!
# Sizes and fixed addresses

The dimensions of the machine and the places in memory that have a meaning of their own. Every
size is a reducible numeral, so bounds stated with these names are arithmetic on literals.
-/

namespace Chip8

/-- Bytes of addressable memory. -/
abbrev memorySize : Nat := 4096

/-- Where a program is loaded and where it starts; everything below belongs to the interpreter. -/
abbrev programStart : Nat := 0x200

/-- The largest program that fits between its start and the end of memory. -/
abbrev romCapacity : Nat := memorySize - programStart

/-- The bits of a word that address memory. -/
abbrev addressMask : Nat := 0xFFF

/-- Pixels in a row of the screen. -/
abbrev screenWidth : Nat := 64

/-- Rows of the screen. -/
abbrev screenHeight : Nat := 32

/-- Pixels in a row of a sprite. -/
abbrev spriteWidth : Nat := 8

/-- The most rows that a draw instruction can ask for. -/
abbrev maxSpriteHeight : Nat := 15

/-- Byte registers `V0` to `VF`. -/
abbrev registerCount : Nat := 16

/-- The register `V0`. -/
abbrev firstRegister : Fin registerCount := ⟨0, Nat.succ_pos 15⟩

/-- The register that receives carries, borrows and collisions. -/
abbrev flagRegister : Fin registerCount := 15

/-- Keys of the hexadecimal keypad. -/
abbrev keyCount : Nat := 16

/-- Frames of the call stack. -/
abbrev stackFrames : Nat := 16

/-- Timer ticks in a second. -/
abbrev timerRate : Nat := 60

/-- Where the built-in digits are stored. -/
abbrev fontStart : Nat := 0x050

/-- Bytes, hence rows, of one built-in digit. -/
abbrev glyphSize : Nat := 5

end Chip8
