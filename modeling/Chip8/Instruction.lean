import Chip8.Alu
import Chip8.Layout

/-!
# Instructions

The thirty-five operations, each with a name and the pattern of its hexadecimal digits, and the
operands that can be read off an instruction word. In a pattern the letters stand for any digit:
`X` and `Y` name registers, a run of `N` is a number.
-/

namespace Chip8

/-- What an instruction tests before it skips the next one. -/
inductive Condition where
  /-- `VX` is the byte of the instruction. -/
  | byteEqual
  /-- `VX` is not the byte of the instruction. -/
  | byteDiffers
  /-- `VX` is `VY`. -/
  | registersEqual
  /-- `VX` is not `VY`. -/
  | registersDiffer
  /-- The key of `VX` is held down. -/
  | keyDown
  /-- The key of `VX` is not held down. -/
  | keyUp
  deriving DecidableEq, Repr

/-- An operation of the machine. -/
inductive Op where
  /-- Call a routine of the host processor, which this machine lacks. -/
  | machineCall
  /-- Make the screen dark. -/
  | clearScreen
  /-- Return from a subroutine. -/
  | ret
  /-- Jump to an address. -/
  | jump
  /-- Call a subroutine. -/
  | call
  /-- Skip the next instruction if a condition holds. -/
  | skip (condition : Condition)
  /-- Set `VX` to a byte. -/
  | setByte
  /-- Add a byte to `VX`. -/
  | addByte
  /-- Combine `VX` with `VY`. -/
  | alu (operation : Alu)
  /-- Set the index to an address. -/
  | setIndex
  /-- Jump to an address plus a register. -/
  | jumpOffset
  /-- Set `VX` to a random byte under a mask. -/
  | random
  /-- Draw a sprite. -/
  | draw
  /-- Read the delay timer into `VX`. -/
  | getDelay
  /-- Wait for a key and store it in `VX`. -/
  | awaitKey
  /-- Set the delay timer to `VX`. -/
  | setDelay
  /-- Set the sound timer to `VX`. -/
  | setSound
  /-- Add `VX` to the index. -/
  | addIndex
  /-- Point the index at the glyph of `VX`. -/
  | glyph
  /-- Store the decimal digits of `VX`. -/
  | storeDecimal
  /-- Store the registers up to `VX`. -/
  | store
  /-- Load the registers up to `VX`. -/
  | load
  deriving DecidableEq, Repr

/-- The printed name of a skip. -/
def Condition.label : Condition → String
  | byteEqual => "SKIP_EQ_IMM"
  | byteDiffers => "SKIP_NE_IMM"
  | registersEqual => "SKIP_EQ_REG"
  | registersDiffer => "SKIP_NE_REG"
  | keyDown => "SKIP_KEY"
  | keyUp => "SKIP_NOT_KEY"

/-- The digits of a skip. -/
def Condition.pattern : Condition → String
  | byteEqual => "3XNN"
  | byteDiffers => "4XNN"
  | registersEqual => "5XY0"
  | registersDiffer => "9XY0"
  | keyDown => "EX9E"
  | keyUp => "EXA1"

/-- The printed name of an operation on two registers. -/
def Alu.label : Alu → String
  | assign => "SET_REG"
  | or => "OR"
  | and => "AND"
  | xor => "XOR"
  | add => "ADD_REG"
  | subtract => "SUB"
  | shiftRight => "SHR"
  | subtractFrom => "SUBN"
  | shiftLeft => "SHL"

/-- The digits of an operation on two registers. -/
def Alu.pattern : Alu → String
  | assign => "8XY0"
  | or => "8XY1"
  | and => "8XY2"
  | xor => "8XY3"
  | add => "8XY4"
  | subtract => "8XY5"
  | shiftRight => "8XY6"
  | subtractFrom => "8XY7"
  | shiftLeft => "8XYE"

namespace Op

/-- The printed name of an operation. -/
def label : Op → String
  | machineCall => "SYS"
  | clearScreen => "CLEAR_SCREEN"
  | ret => "RETURN"
  | jump => "JUMP"
  | call => "CALL"
  | skip condition => condition.label
  | setByte => "SET_IMM"
  | addByte => "ADD_IMM"
  | alu operation => operation.label
  | setIndex => "SET_INDEX"
  | jumpOffset => "JUMP_OFFSET"
  | random => "RANDOM"
  | draw => "DRAW"
  | getDelay => "GET_DELAY"
  | awaitKey => "WAIT_KEY"
  | setDelay => "SET_DELAY"
  | setSound => "SET_SOUND"
  | addIndex => "ADD_INDEX"
  | glyph => "FONT"
  | storeDecimal => "BCD"
  | store => "STORE"
  | load => "LOAD"

/-- The hexadecimal digits of an operation, letters standing for operands. -/
def pattern : Op → String
  | machineCall => "0NNN"
  | clearScreen => "00E0"
  | ret => "00EE"
  | jump => "1NNN"
  | call => "2NNN"
  | skip condition => condition.pattern
  | setByte => "6XNN"
  | addByte => "7XNN"
  | alu operation => operation.pattern
  | setIndex => "ANNN"
  | jumpOffset => "BNNN"
  | random => "CXNN"
  | draw => "DXYN"
  | getDelay => "FX07"
  | awaitKey => "FX0A"
  | setDelay => "FX15"
  | setSound => "FX18"
  | addIndex => "FX1E"
  | glyph => "FX29"
  | storeDecimal => "FX33"
  | store => "FX55"
  | load => "FX65"

/-- Whether an operation may change the screen. -/
def touchesScreen : Op → Bool
  | clearScreen | draw => true
  | _ => false

end Op

/-- An operation together with the word that its operands are read from. -/
structure Instruction where
  /-- What to do. -/
  op : Op
  /-- The whole word. -/
  word : UInt16
  deriving DecidableEq, Repr

namespace Instruction

/-- The first digit. -/
def family (i : Instruction) : Fin 16 := ⟨i.word.toNat / 4096, by have := i.word.toNat_lt; omega⟩

/-- The second digit, the number of register `VX`. -/
def x (i : Instruction) : Fin registerCount :=
  ⟨i.word.toNat / 256 % 16, Nat.mod_lt _ (by decide)⟩

/-- The third digit, the number of register `VY`. -/
def y (i : Instruction) : Fin registerCount :=
  ⟨i.word.toNat / 16 % 16, Nat.mod_lt _ (by decide)⟩

/-- The last digit. -/
def n (i : Instruction) : Fin 16 := ⟨i.word.toNat % 16, Nat.mod_lt _ (by decide)⟩

/-- The last two digits. -/
def nn (i : Instruction) : UInt8 := i.word.toUInt8

/-- The last three digits. -/
def nnn (i : Instruction) : UInt16 := i.word % 4096

@[simp] theorem family_val (i : Instruction) : i.family.val = i.word.toNat / 4096 := rfl

@[simp] theorem x_val (i : Instruction) : i.x.val = i.word.toNat / 256 % 16 := rfl

@[simp] theorem y_val (i : Instruction) : i.y.val = i.word.toNat / 16 % 16 := rfl

@[simp] theorem n_val (i : Instruction) : i.n.val = i.word.toNat % 16 := rfl

@[simp] theorem toNat_nn (i : Instruction) : i.nn.toNat = i.word.toNat % 256 := by
  simp [nn]

@[simp] theorem toNat_nnn (i : Instruction) : i.nnn.toNat = i.word.toNat % 4096 := by
  simp [nnn, UInt16.toNat_mod]

end Instruction

end Chip8
