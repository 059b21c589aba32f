import Chip8.Fault
import Chip8.Instruction

/-!
# Decoding

The first digit of a word selects a family. Some families are a single operation; the others
look at the last digit, the last two digits or the whole word. A word that fits nowhere is an
unknown opcode.
-/

namespace Chip8

/-- The operation on two registers that a last digit selects. -/
def Alu.ofDigit? : Nat → Option Alu
  | 0x0 => some .assign
  | 0x1 => some .or
  | 0x2 => some .and
  | 0x3 => some .xor
  | 0x4 => some .add
  | 0x5 => some .subtract
  | 0x6 => some .shiftRight
  | 0x7 => some .subtractFrom
  | 0xE => some .shiftLeft
  | _ => none

namespace Op

/-- The key test that a last byte selects. -/
def ofKeyByte? : Nat → Option Op
  | 0x9E => some (.skip .keyDown)
  | 0xA1 => some (.skip .keyUp)
  | _ => none

/-- The operation of the last family that a last byte selects. -/
def ofMiscByte? : Nat → Option Op
  | 0x07 => some .getDelay
  | 0x0A => some .awaitKey
  | 0x15 => some .setDelay
  | 0x18 => some .setSound
  | 0x1E => some .addIndex
  | 0x29 => some .glyph
  | 0x33 => some .storeDecimal
  | 0x55 => some .store
  | 0x65 => some .load
  | _ => none

/-- The operation of the first family: two words have a meaning, the rest are routine calls. -/
def ofSystemWord (word : Nat) : Op :=
  if word = 0x00E0 then .clearScreen else if word = 0x00EE then .ret else .machineCall

/-- The operation of a word below `65536`. -/
def ofWord? (word : Nat) : Option Op :=
  match word / 4096 with
  | 0x0 => some (ofSystemWord word)
  | 0x1 => some .jump
  | 0x2 => some .call
  | 0x3 => some (.skip .byteEqual)
  | 0x4 => some (.skip .byteDiffers)
  | 0x5 => if word % 16 = 0 then some (.skip .registersEqual) else none
  | 0x6 => some .setByte
  | 0x7 => some .addByte
  | 0x8 => (Alu.ofDigit? (word % 16)).map .alu
  | 0x9 => if word % 16 = 0 then some (.skip .registersDiffer) else none
  | 0xA => some .setIndex
  | 0xB => some .jumpOffset
  | 0xC => some .random
  | 0xD => some .draw
  | 0xE => ofKeyByte? (word % 256)
  | 0xF => ofMiscByte? (word % 256)
  | _ => none

end Op

/-- The instruction of a word. -/
def Instruction.ofWord (word : UInt16) : Except Fault Instruction :=
  match Op.ofWord? word.toNat with
  | some op => .ok ⟨op, word⟩
  | none => .error (.unknownOpcode word.toNat .unrecognised)

/-- The instruction of a number, of which the low sixteen bits count. -/
def decode (w : Int) : Except Fault Instruction := Instruction.ofWord (UInt16.ofInt w)

end Chip8
