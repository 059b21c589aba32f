import Chip8.Instruction.Decode
import Chip8.Machine
import Chip8.Sprite

/-!
# Execution

What each instruction does to a machine whose program counter already points past it. An
instruction either produces the next state or fails, and a failed instruction has no effect.
-/

namespace Chip8.Machine

/-- Go on at an address. -/
def jumpTo (m : Machine) (address : UInt16) : Machine := { m with pc := address }

/-- Leave out the next instruction if asked to. -/
def skipIf (m : Machine) (condition : Bool) : Machine :=
  if condition then { m with pc := m.pc + 2 } else m

/-- The key that the low digit of a register selects. -/
def selectedKey (m : Machine) (x : Fin registerCount) : Fin keyCount :=
  ⟨(m.register x).toNat % 16, Nat.mod_lt _ (by decide)⟩

/-- Whether the condition of a skip holds. -/
def holds (m : Machine) (i : Instruction) : Condition → Bool
  | .byteEqual => m.register i.x == i.nn
  | .byteDiffers => m.register i.x != i.nn
  | .registersEqual => m.register i.x == m.register i.y
  | .registersDiffer => m.register i.x != m.register i.y
  | .keyDown => m.keypad.isDown (m.selectedKey i.x)
  | .keyUp => !m.keypad.isDown (m.selectedKey i.x)

/-- Call the subroutine at an address. -/
def call (m : Machine) (address : UInt16) : Except Fault Machine := do
  let stack ← m.stack.push m.pc
  return { m with stack, pc := address }

/-- Return from the newest subroutine. -/
def ret (m : Machine) : Except Fault Machine := do
  let (address, stack) ← m.stack.pop
  return { m with stack, pc := address }

/-- Combine two registers. Both operands are read first; arithmetic then writes the flag before
the result and a shift writes the result before the flag, so the later one stays in `VF`. -/
def combine (m : Machine) (operation : Alu) (x y : Fin registerCount) : Machine :=
  let b := m.register y
  let a := if operation.isShift && m.dialect.shiftReadsSource then b else m.register x
  let outcome := operation.apply a b
  match outcome.flag with
  | none => m.setRegister x outcome.result
  | some flag =>
    if operation.isShift then (m.setRegister x outcome.result).setFlag flag
    else (m.setFlag flag).setRegister x outcome.result

/-- Where a jump with an offset goes. -/
def offsetTarget (m : Machine) (i : Instruction) : UInt16 :=
  let offset := m.register (if m.dialect.offsetJumpReadsX then i.x else firstRegister)
  (i.nnn + offset.toUInt16) % 4096

/-- Draw a byte from the stream and keep the bits of a mask. The stream advances whatever the
mask. -/
def drawRandom (m : Machine) (x : Fin registerCount) (mask : UInt8) : Machine :=
  { m.setRegister x (Random.draw m.random &&& mask) with random := Random.next m.random }

/-- Toggle the pixels of the sprite at the index and flag whether any of them was lit. -/
def drawSprite (m : Machine) (x y : Fin registerCount) (height : Nat) : Except Fault Machine := do
  let rows ← m.memory.readBytes m.index.toNat height
  let mask := Sprite.mask rows ((m.register x).toNat % screenWidth)
    ((m.register y).toNat % screenHeight) m.dialect.drawWraps
  return { m with screen := m.screen.xor mask }.setFlag (m.screen.meets mask)

/-- Wait for a key: stay on this instruction until one goes down. -/
def awaitKey (m : Machine) (x : Fin registerCount) : Machine :=
  { m with pc := m.pc - 2, wait := .start x }

/-- The decimal digits of a byte, the hundreds first. -/
def decimalDigits (value : UInt8) : List UInt8 := [value / 100, value / 10 % 10, value % 10]

/-- Store the decimal digits of a register at the index. -/
def storeDecimal (m : Machine) (x : Fin registerCount) : Except Fault Machine := do
  let memory ← m.memory.writeBytes m.index.toNat (decimalDigits (m.register x))
  return { m with memory }

/-- The index after moving the registers up to one to or from memory. -/
def indexAfterTransfer (m : Machine) (x : Fin registerCount) : UInt16 :=
  if m.dialect.transferAdvancesIndex then (m.index + UInt16.ofNat (x.val + 1)) % 4096 else m.index

/-- Store the registers up to one at the index. -/
def storeRegisters (m : Machine) (x : Fin registerCount) : Except Fault Machine := do
  let memory ← m.memory.writeBytes m.index.toNat (m.registers.toList.take (x.val + 1))
  return { m with memory, index := m.indexAfterTransfer x }

/-- Replace the first registers by the bytes of a run. -/
def overwrite (registers : Registers) (values : List UInt8) : Registers :=
  Vector.ofFn fun z => values[z.val]?.getD (registers.get z)

/-- Load the registers up to one from the index. -/
def loadRegisters (m : Machine) (x : Fin registerCount) : Except Fault Machine := do
  let values ← m.memory.readBytes m.index.toNat (x.val + 1 : Nat)
  return { m with
    registers := overwrite m.registers values
    index := m.indexAfterTransfer x }

/-- Carry out an instruction. -/
def perform (m : Machine) (i : Instruction) : Except Fault Machine :=
  match i.op with
  | .machineCall => .error (.unknownOpcode i.word.toNat .machineCall)
  | .clearScreen => .ok { m with screen := .blank }
  | .ret => m.ret
  | .jump => .ok (m.jumpTo i.nnn)
  | .call => m.call i.nnn
  | .skip condition => .ok (m.skipIf (m.holds i condition))
  | .setByte => .ok (m.setRegister i.x i.nn)
  | .addByte => .ok (m.setRegister i.x (m.register i.x + i.nn))
  | .alu operation => .ok (m.combine operation i.x i.y)
  | .setIndex => .ok { m with index := i.nnn }
  | .jumpOffset => .ok (m.jumpTo (m.offsetTarget i))
  | .random => .ok (m.drawRandom i.x i.nn)
  | .draw => m.drawSprite i.x i.y i.n
  | .getDelay => .ok (m.setRegister i.x m.delay)
  | .awaitKey => .ok (m.awaitKey i.x)
  | .setDelay => .ok { m with delay := m.register i.x }
  | .setSound => .ok { m with sound := m.register i.x }
  | .addIndex => .ok { m with index := (m.index + (m.register i.x).toUInt16) % 4096 }
  | .glyph => .ok { m with index := UInt16.ofNat (Font.glyphAddress (m.register i.x).toNat) }
  | .storeDecimal => m.storeDecimal i.x
  | .store => m.storeRegisters i.x
  | .load => m.loadRegisters i.x

/-- Carry out the instruction of a number. -/
def execute (m : Machine) (w : Int) : Except Fault Machine := do
  m.perform (← decode w)

end Chip8.Machine
