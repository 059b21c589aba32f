import Chip8.CallStack
import Chip8.Dialect
import Chip8.Font
import Chip8.KeyWait
import Chip8.Keypad
import Chip8.Memory
import Chip8.Random.Stream
import Chip8.Screen

/-!
# The machine

Everything that a program can see or change, and the state in which a program starts.
-/

namespace Chip8

/-- The byte registers `V0` to `VF`. -/
abbrev Registers := Vector UInt8 registerCount

/-- The state of a machine. -/
structure Machine where
  /-- The contents of memory. -/
  memory : Memory
  /-- The address of the next instruction. -/
  pc : UInt16
  /-- The address that memory instructions work on. -/
  index : UInt16
  /-- The byte registers. -/
  registers : Registers
  /-- The frames of the active subroutines. -/
  stack : CallStack
  /-- The timer that programs read. -/
  delay : UInt8
  /-- The timer that sounds the tone. -/
  sound : UInt8
  /-- The screen. -/
  screen : Screen
  /-- The keys that are held down. -/
  keypad : Keypad
  /-- The key wait in progress, if any. -/
  wait : KeyWait
  /-- The stream of random bytes. -/
  random : Random.Block
  /-- How many instructions have been completed. -/
  cycles : Int
  /-- How the disputed instructions behave. -/
  dialect : Dialect
  deriving DecidableEq, Repr

namespace Machine

/-- Memory before any program is loaded: the font and zeros. -/
def blankMemory : Memory := Memory.zero.patch fontStart Font.rows

/-- The state in which a program starts, apart from the program itself. -/
def initial (random : Random.Block) (dialect : Dialect) : Machine where
  memory := blankMemory
  pc := UInt16.ofNat programStart
  index := 0
  registers := Vector.replicate registerCount 0
  stack := .empty
  delay := 0
  sound := 0
  screen := .blank
  keypad := .released
  wait := .inactive
  random := random
  cycles := 0
  dialect := dialect

/-- The byte in a register. -/
def register (m : Machine) (x : Fin registerCount) : UInt8 := m.registers[x]

/-- Put a byte into a register. -/
def setRegister (m : Machine) (x : Fin registerCount) (value : UInt8) : Machine :=
  { m with registers := m.registers.set x value }

theorem register_setRegister (m : Machine) (x : Fin registerCount) (value : UInt8)
    (z : Fin registerCount) :
    (m.setRegister x value).register z = if x = z then value else m.register z := by
  simp [setRegister, register, Vector.getElem_set, Fin.ext_iff]

/-- Put a flag into the flag register, as one or zero. -/
def setFlag (m : Machine) (flag : Bool) : Machine := m.setRegister flagRegister flag.toUInt8

/-- Copy a program into memory, if it fits. -/
def loadProgram? (m : Machine) (rom : List UInt8) : Option Machine :=
  (m.memory.loadProgram? rom).map fun memory => { m with memory }

/-- Whether the tone is sounding. -/
def soundActive (m : Machine) : Bool := decide (0 < m.sound)

end Machine

end Chip8
